import Mathlib.Logic.Function.Basic

/-!
# Programs that use a shared object

A program asks an object questions, one after the other, and ends with a result.
Other programs may use the object between two of its questions. What a program
does without interruption is `Program.run`. With interruptions, it does what a
specification allows if one of its questions takes effect and the others are not
noticed; a program that reads first and then takes effect does what it does without
interruption, where what it has read is still true when it takes effect.

## Main definitions

- `Program` — a result, or a question and what follows each answer
- `Program.run` — a run that nothing interrupts
- `Program.AsksAtMost` — a bound on the questions, whatever the answers
- `Program.Yields` — what the results are, whatever the answers
- `Program.Implements` — one question does what a specification allows
- `Program.Repeats`, `Program.ReadsFirst` — reads whose answers are still true
-/

universe u v

/-- A program with the questions `Q`, the answers `A`, and a result in `α`. -/
inductive Program (Q : Type u) (A : Q → Type u) (α : Type u)
  | done (a : α)
  | ask (q : Q) (next : A q → Program Q A α)

namespace Program

variable {Q : Type u} {A : Q → Type u} {α β σ : Type u}

protected def bind : Program Q A α → (α → Program Q A β) → Program Q A β
  | done a, f => f a
  | ask q next, f => ask q fun a => (next a).bind f

instance : Monad (Program Q A) where
  pure := done
  bind := Program.bind

@[simp] theorem bind_done (a : α) (f : α → Program Q A β) : (done a >>= f) = f a := rfl

@[simp] theorem bind_ask (q : Q) (next : A q → Program Q A α) (f : α → Program Q A β) :
    (ask q next >>= f) = ask q fun a => next a >>= f := rfl

@[simp] theorem map_done (f : α → β) (a : α) : (f <$> (done a : Program Q A α)) = done (f a) := rfl

@[simp] theorem map_ask (f : α → β) (q : Q) (next : A q → Program Q A α) :
    (f <$> ask q next) = ask q fun a => f <$> next a := rfl

/-! ### Runs without interruption -/

variable (answer : (q : Q) → σ → A q × σ)

/-- Put all questions to the object, from a state on. -/
def run : Program Q A α → σ → α × σ
  | done a, s => (a, s)
  | ask q next, s => (next (answer q s).1).run (answer q s).2

/-- The questions put in such a run. -/
def asked : Program Q A α → σ → List Q
  | done _, _ => []
  | ask q next, s => q :: (next (answer q s).1).asked (answer q s).2

theorem run_map (f : α → β) (p : Program Q A α) (s : σ) :
    (f <$> p).run answer s = (f (p.run answer s).1, (p.run answer s).2) := by
  induction p generalizing s with
  | done a => rfl
  | ask q next ih => exact ih _ _

theorem asked_map (f : α → β) (p : Program Q A α) (s : σ) :
    (f <$> p).asked answer s = p.asked answer s := by
  induction p generalizing s with
  | done a => rfl
  | ask q next ih =>
    rw [map_ask, asked, asked, ih]

/-! ### How many questions -/

/-- Whatever the answers, the program puts at most so many questions. -/
def AsksAtMost : Program Q A α → Nat → Prop
  | done _, _ => True
  | ask _ _, 0 => False
  | ask _ next, n + 1 => ∀ a, (next a).AsksAtMost n

theorem asksAtMost_done (a : α) (n : Nat) : (done a : Program Q A α).AsksAtMost n := by
  cases n <;> trivial

/-- A program that puts no question has its result. -/
theorem exists_done {p : Program Q A α} (h : p.AsksAtMost 0) : ∃ a, p = done a := by
  cases p with
  | done a => exact ⟨a, rfl⟩
  | ask q next => exact h.elim

theorem AsksAtMost.mono {p : Program Q A α} {n m : Nat} (h : p.AsksAtMost n) (hle : n ≤ m) :
    p.AsksAtMost m := by
  induction p generalizing n m with
  | done a => exact asksAtMost_done a m
  | ask q next ih =>
    obtain _ | n := n
    · exact h.elim
    · obtain ⟨m, rfl⟩ := Nat.exists_eq_add_one_of_ne_zero (Nat.ne_zero_of_lt hle)
      intro a
      exact ih a (h a) (Nat.le_of_succ_le_succ hle)

theorem AsksAtMost.bind {p : Program Q A α} {f : α → Program Q A β} {n m : Nat}
    (h : p.AsksAtMost n) (hf : ∀ a, (f a).AsksAtMost m) : (p.bind f).AsksAtMost (n + m) := by
  induction p generalizing n with
  | done a => exact (hf a).mono (Nat.le_add_left m n)
  | ask q next ih =>
    obtain _ | n := n
    · exact h.elim
    · rw [Nat.succ_add]
      intro a
      exact ih a (h a)

theorem AsksAtMost.map {p : Program Q A α} {n : Nat} (h : p.AsksAtMost n) (f : α → β) :
    (f <$> p).AsksAtMost n :=
  h.bind (f := fun a => done (f a)) (m := 0) fun a => asksAtMost_done (f a) 0

/-! ### What the results are -/

/-- Whatever the answers, the result is one of these. -/
def Yields (P : α → Prop) : Program Q A α → Prop
  | done a => P a
  | ask _ next => ∀ a, (next a).Yields P

theorem yields_of_forall {P : α → Prop} (h : ∀ a, P a) (p : Program Q A α) : p.Yields P := by
  induction p with
  | done a => exact h a
  | ask q next ih => exact ih

theorem Yields.map {P : α → Prop} {P' : β → Prop} {p : Program Q A α} (h : p.Yields P)
    {f : α → β} (hf : ∀ a, P a → P' (f a)) : (f <$> p).Yields P' := by
  induction p with
  | done a => exact hf a h
  | ask q next ih => exact fun a => ih a (h a)

/-! ### Programs that take effect at one moment -/

section Implements

variable {τ : Type v} (allowed : Program Q A α → σ → Prop) (shows : σ → τ → Prop)
  (spec : τ → α → τ → Prop)

/-- The program does what the specification allows, by one question or by none: any other
    question leaves what the object shows as it is. What is left of the program puts its
    next question only where this is allowed. -/
def Implements : Program Q A α → Prop
  | done a => ∀ s t, shows s t → ∃ t', spec t a t' ∧ shows s t'
  | ask q next => ∀ s t, allowed (ask q next) s → shows s t →
      (shows (answer q s).2 t ∧ (next (answer q s).1).Implements) ∨
        ∃ a t', next (answer q s).1 = done a ∧ spec t a t' ∧ shows (answer q s).2 t'

variable {answer allowed shows spec}

/-- Where there is nothing to see of the object, only the result matters. -/
theorem Yields.implements {P : α → Prop} {p : Program Q A α} (h : p.Yields P) :
    p.Implements answer allowed (fun _ (_ : PUnit.{v + 1}) => True) (fun _ a _ => P a) := by
  induction p with
  | done a => exact fun _ t _ => ⟨t, h, trivial⟩
  | ask q next ih => exact fun s t _ _ => .inl ⟨trivial, ih _ (h _)⟩

/-- A program that puts one question does what it does without interruption. -/
theorem AsksAtMost.implements {p : Program Q A α} (h : p.AsksAtMost 1)
    (hrun : ∀ s t, shows s t →
      ∃ t', spec t (p.run answer s).1 t' ∧ shows (p.run answer s).2 t') :
    p.Implements answer allowed shows spec := by
  cases p with
  | done a => exact hrun
  | ask q next =>
    intro s t _ hshows
    obtain ⟨a, ha⟩ := exists_done (h (answer q s).1)
    obtain ⟨t', hspec, hshows'⟩ := hrun s t hshows
    simp only [run, ha] at hspec hshows'
    exact .inr ⟨a, t', ha, hspec, hshows'⟩

end Implements

/-! ### Answers that are still true -/

/-- In this state the object brings the one program to the other by its answers, and is
    left as it is. -/
inductive Leads (s : σ) : Program Q A α → Program Q A α → Prop
  | refl (p : Program Q A α) : Leads s p p
  | ask (q : Q) (next : A q → Program Q A α) (p : Program Q A α)
      (hread : (answer q s).2 = s) (h : Leads s (next (answer q s).1) p) :
    Leads s (.ask q next) p

/-- A program that is going to put a question has had the answers that it would have now. -/
def Repeats (whole : Program Q A α) : Program Q A α → σ → Prop
  | done _, _ => True
  | ask q next, s => Leads answer s whole (ask q next)

/-- All questions leave the object as it is, apart from those after which the result is
    known. -/
def ReadsFirst : Program Q A α → Prop
  | done _ => True
  | ask q next => ∀ s, ((answer q s).2 = s ∧ (next (answer q s).1).ReadsFirst) ∨
      ∃ a, next (answer q s).1 = done a

variable {answer}

theorem Leads.run_eq {s : σ} {p p' : Program Q A α} (h : Leads answer s p p') :
    p.run answer s = p'.run answer s := by
  induction h with
  | refl p => rfl
  | ask q next p hread _ ih => rw [run, hread, ih]

theorem AsksAtMost.readsFirst {p : Program Q A α} (h : p.AsksAtMost 1) : p.ReadsFirst answer := by
  cases p with
  | done a => trivial
  | ask q next => exact fun s => .inr (exists_done (h _))

theorem ReadsFirst.map {p : Program Q A α} (h : p.ReadsFirst answer) (f : α → β) :
    (f <$> p).ReadsFirst answer := by
  induction p with
  | done a => trivial
  | ask q next ih =>
    intro s
    rcases h s with ⟨hread, hnext⟩ | ⟨a, ha⟩
    · exact .inl ⟨hread, ih _ hnext⟩
    · refine .inr ⟨f a, ?_⟩
      show f <$> next (answer q s).1 = done (f a)
      rw [ha, map_done]

/-- **Validated reads**: a program that reads first takes effect with its last question,
    provided that what it has read is still true. -/
theorem ReadsFirst.implements {whole p : Program Q A α} (h : p.ReadsFirst answer)
    (hwhole : ∀ a, p = done a → whole = done a) :
    p.Implements answer (whole.Repeats answer) Eq fun s a s' => whole.run answer s = (a, s') := by
  induction p with
  | done a =>
    rintro s _ rfl
    refine ⟨s, ?_, rfl⟩
    rw [hwhole a rfl]
    rfl
  | ask q next ih =>
    rintro s _ hrepeats rfl
    have hrun : whole.run answer s = (next (answer q s).1).run answer (answer q s).2 :=
      hrepeats.run_eq
    cases hnext : next (answer q s).1 with
    | done a =>
      rw [hnext] at hrun
      exact .inr ⟨a, _, rfl, hrun, rfl⟩
    | ask q' next' =>
      rcases h s with ⟨hread, hreads⟩ | ⟨a, ha⟩
      · refine .inl ⟨hread, ?_⟩
        rw [← hnext]
        refine ih _ hreads fun a ha => ?_
        rw [hnext] at ha
        cases ha
      · rw [hnext] at ha
        cases ha

/-! ### More questions to choose from -/

section Sum

variable {Q' : Type u} {A' : Q' → Type u}

/-- The program with questions of two kinds, of which it puts the first. -/
def inl : Program Q A α → Program (Q ⊕ Q') (Sum.elim A A') α
  | done a => .done a
  | ask q next => .ask (.inl q) fun a => (next a).inl

/-- The program with questions of two kinds, of which it puts the second. -/
def inr : Program Q' A' α → Program (Q ⊕ Q') (Sum.elim A A') α
  | done a => .done a
  | ask q next => .ask (.inr q) fun a => (next a).inr

/-- An object that answers questions of both kinds. -/
def either (answer : (q : Q) → σ → A q × σ) (answer' : (q : Q') → σ → A' q × σ) :
    (q : Q ⊕ Q') → σ → Sum.elim A A' q × σ
  | .inl q, s => answer q s
  | .inr q, s => answer' q s

variable {answer' : (q : Q') → σ → A' q × σ}

theorem run_inl (p : Program Q A α) (s : σ) :
    (p.inl : Program (Q ⊕ Q') (Sum.elim A A') α).run (either answer answer') s =
      p.run answer s := by
  induction p generalizing s with
  | done a => rfl
  | ask q next ih => exact ih _ _

theorem run_inr (p : Program Q' A' α) (s : σ) :
    (p.inr : Program (Q ⊕ Q') (Sum.elim A A') α).run (either answer answer') s =
      p.run answer' s := by
  induction p generalizing s with
  | done a => rfl
  | ask q next ih => exact ih _ _

theorem AsksAtMost.inl {p : Program Q A α} {n : Nat} (h : p.AsksAtMost n) :
    (p.inl : Program (Q ⊕ Q') (Sum.elim A A') α).AsksAtMost n := by
  induction p generalizing n with
  | done a => exact asksAtMost_done a n
  | ask q next ih =>
    obtain _ | n := n
    · exact h.elim
    · exact fun a => ih a (h a)

theorem AsksAtMost.inr {p : Program Q' A' α} {n : Nat} (h : p.AsksAtMost n) :
    (p.inr : Program (Q ⊕ Q') (Sum.elim A A') α).AsksAtMost n := by
  induction p generalizing n with
  | done a => exact asksAtMost_done a n
  | ask q next ih =>
    obtain _ | n := n
    · exact h.elim
    · exact fun a => ih a (h a)

theorem Yields.inl {P : α → Prop} {p : Program Q A α} (h : p.Yields P) :
    (p.inl : Program (Q ⊕ Q') (Sum.elim A A') α).Yields P := by
  induction p with
  | done a => exact h
  | ask q next ih => exact fun a => ih a (h a)

theorem ReadsFirst.inl {p : Program Q A α} (h : p.ReadsFirst answer) :
    p.inl.ReadsFirst (either answer answer') := by
  induction p with
  | done a => trivial
  | ask q next ih =>
    intro s
    rcases h s with ⟨hread, hnext⟩ | ⟨a, ha⟩
    · exact .inl ⟨hread, ih _ hnext⟩
    · refine .inr ⟨a, ?_⟩
      show (next (answer q s).1).inl = done a
      rw [ha, Program.inl]

end Sum

end Program
