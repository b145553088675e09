import Mathlib.Logic.Relation
import Mathlib.Order.Defs.Unbundled
import BetterMQ.Lib.Slots

/-!
# Tasks that take locks

Tasks take and give back exclusive locks and work on a common store, one operation at a step, in any
interleaving. A lock that a task holds is not free for it either.

* **`LockProg.Ordered`** — the task takes every lock after those it holds, in a given order;
* **`Ordered.step`**, **`not_deadlocked`** — then no task waits for itself, round a cycle or not.
-/

namespace BetterMQ

open List

/-- A program over locks `M` and a store `σ`. -/
inductive LockProg (M σ : Type) where
  | done
  | acquire (m : M) (k : LockProg M σ)
  | release (m : M) (k : LockProg M σ)
  /-- An access to the store; what follows may depend on what was there. -/
  | access (f : σ → σ) (k : σ → LockProg M σ)

variable {M σ : Type} {i : Nat}

/-- A critical section of its own. -/
def LockProg.locked (m : M) (k : LockProg M σ) : LockProg M σ := .acquire m (.release m k)

structure LockTask (M σ : Type) where
  held : List M
  prog : LockProg M σ

/-- The lock that the task takes next. -/
def LockTask.wants (t : LockTask M σ) : Option M :=
  match t.prog with
  | .acquire m _ => some m
  | _ => none

structure LockSystem (M σ : Type) where
  store : σ
  tasks : List (LockTask M σ)

namespace LockSystem

def start (s : LockSystem M σ) (prog : LockProg M σ) : LockSystem M σ :=
  { s with tasks := s.tasks ++ [⟨[], prog⟩] }

/-- The next operation of task `i`. -/
def step [DecidableEq M] (s : LockSystem M σ) (i : Nat) : Option (LockSystem M σ) :=
  (s.tasks[i]?).bind fun t =>
    match t.prog with
    | .done => none
    | .acquire m k =>
      if ∃ u ∈ s.tasks, m ∈ u.held then none
      else some { s with tasks := s.tasks.set i ⟨m :: t.held, k⟩ }
    | .release m k => some { s with tasks := s.tasks.set i ⟨t.held.erase m, k⟩ }
    | .access f k => some ⟨f s.store, s.tasks.set i ⟨t.held, k s.store⟩⟩

/-- Task `i` waits for a lock that task `j` holds. -/
def WaitsFor (s : LockSystem M σ) (i j : Nat) : Prop :=
  ∃ t u m, s.tasks[i]? = some t ∧ s.tasks[j]? = some u ∧ t.wants = some m ∧ m ∈ u.held

/-- Some task waits for itself, at once or round a cycle. -/
def Deadlocked (s : LockSystem M σ) : Prop := ∃ i, Relation.TransGen s.WaitsFor i i

end LockSystem

/-! ## Locks in order -/

section Order

variable [DecidableEq M] {lt : M → M → Prop} {s s' : LockSystem M σ}

/-- With `held` in hand, every lock is taken after all those held. -/
def LockProg.Ordered (lt : M → M → Prop) : List M → LockProg M σ → Prop
  | _, .done => True
  | held, .acquire m k => (∀ h ∈ held, lt h m) ∧ k.Ordered lt (m :: held)
  | held, .release m k => k.Ordered lt (held.erase m)
  | held, .access _ k => ∀ x, (k x).Ordered lt held

namespace LockSystem

def Ordered (lt : M → M → Prop) (s : LockSystem M σ) : Prop :=
  ∀ t ∈ s.tasks, t.prog.Ordered lt t.held

theorem Ordered.start {prog : LockProg M σ} (h : s.Ordered lt) (hprog : prog.Ordered lt []) :
    (s.start prog).Ordered lt :=
  forall_mem_append.mpr ⟨h, forall_mem_singleton.mpr hprog⟩

theorem Ordered.step (h : s.Ordered lt) (hstep : s.step i = some s') : s'.Ordered lt := by
  obtain ⟨⟨held, prog⟩, ht, hstep⟩ := Option.bind_eq_some_iff.mp hstep
  have hok := h _ (mem_of_getElem? ht)
  intro u hu
  cases prog with
  | done => cases hstep
  | acquire m k =>
    obtain ⟨-, hstep⟩ := Option.ite_none_left_eq_some.mp hstep
    cases hstep
    rcases mem_or_eq_of_mem_set hu with hold | rfl
    · exact h u hold
    · exact hok.2
  | release m k =>
    cases hstep
    rcases mem_or_eq_of_mem_set hu with hold | rfl
    · exact h u hold
    · exact hok
  | access f k =>
    cases hstep
    rcases mem_or_eq_of_mem_set hu with hold | rfl
    · exact h u hold
    · exact hok s.store

theorem Ordered.lt_of_wants (h : s.Ordered lt) {t : LockTask M σ} {m m' : M}
    (ht : s.tasks[i]? = some t) (hheld : m ∈ t.held) (hwants : t.wants = some m') : lt m m' := by
  obtain ⟨held, prog⟩ := t
  have hok := h _ (mem_of_getElem? ht)
  cases prog with
  | acquire n k =>
    cases hwants
    exact hok.1 m hheld
  | _ => cases hwants

/-- **Tasks that take locks in one order never deadlock.** -/
theorem Ordered.not_deadlocked [IsStrictOrder M lt] (h : s.Ordered lt) : ¬s.Deadlocked := by
  -- along a chain of waiting tasks, the lock wanted first comes before every lock wanted later
  have hchain : ∀ {i j}, Relation.TransGen s.WaitsFor i j → ∃ t m, s.tasks[i]? = some t ∧
      t.wants = some m ∧ ∀ u m', s.tasks[j]? = some u → u.wants = some m' → lt m m' := by
    intro i j hij
    induction hij with
    | single hw =>
      obtain ⟨t, u, m, ht, hu, hm, hheld⟩ := hw
      refine ⟨t, m, ht, hm, fun u' m' hu' hm' => ?_⟩
      cases hu.symm.trans hu'
      exact h.lt_of_wants hu hheld hm'
    | tail _ hw ih =>
      obtain ⟨t, m, ht, hm, hlast⟩ := ih
      obtain ⟨t', u, n, ht', hu, hn, hheld⟩ := hw
      refine ⟨t, m, ht, hm, fun u' m' hu' hm' => ?_⟩
      cases hu.symm.trans hu'
      exact IsTrans.trans _ _ _ (hlast t' n ht' hn) (h.lt_of_wants hu hheld hm')
  rintro ⟨i, hi⟩
  obtain ⟨t, m, ht, hm, hlast⟩ := hchain hi
  exact irrefl m (hlast t m ht hm)

end LockSystem

end Order

end BetterMQ
