import Mathlib.Data.List.Basic

/-!
# A snapshot and a journal

A store keeps a snapshot with the number of the last operation in it, and a journal of numbered
operations. Opening it applies the operations that are newer than the snapshot. Compaction replaces
the snapshot first and empties the journal afterwards; either may fail.

* **`load_append`**, **`load_compact`** — what is opened after either.
-/

namespace BetterMQ

structure SnapshotLog (σ C : Type) where
  snapshot : σ
  sequence : Nat
  /-- Oldest first. -/
  journal : List (Nat × C)
  deriving DecidableEq

/-- An opened store: `operations` of its journal have been applied. -/
structure LogView (σ : Type) where
  value : σ
  sequence : Nat
  operations : Nat
  deriving DecidableEq

/-- How far a compaction gets. -/
inductive CompactFate where
  | failed
  | snapshot
  | truncated
  deriving DecidableEq

namespace SnapshotLog

variable {σ C : Type} (apply : σ → C → σ)

def absorb (now : LogView σ) (r : Nat × C) : LogView σ :=
  if r.1 ≤ now.sequence then now else ⟨apply now.value r.2, r.1, now.operations + 1⟩

def load (d : SnapshotLog σ C) : LogView σ :=
  d.journal.foldl (absorb apply) ⟨d.snapshot, d.sequence, 0⟩

/-- The operation after number `n`. -/
def append (d : SnapshotLog σ C) (n : Nat) (c : C) : SnapshotLog σ C :=
  { d with journal := d.journal ++ [(n + 1, c)] }

def compact (d : SnapshotLog σ C) (n : Nat) (x : σ) : CompactFate → SnapshotLog σ C
  | .failed => d
  | .snapshot => ⟨x, n, d.journal⟩
  | .truncated => ⟨x, n, []⟩

/-- The journal is numbered up to `n`. -/
structure UpTo (d : SnapshotLog σ C) (n : Nat) : Prop where
  last : (d.load apply).sequence = n
  journal : ∀ r ∈ d.journal, r.1 ≤ n

variable {apply} {d : SnapshotLog σ C} {n : Nat}

section

variable (h : d.UpTo apply n)

include h

theorem load_append (c : C) :
    (d.append n c).load apply =
      ⟨apply (d.load apply).value c, n + 1, (d.load apply).operations + 1⟩ := by
  have hnew : ¬n + 1 ≤ (d.load apply).sequence := by rw [h.last]; exact Nat.not_succ_le_self n
  rw [load, append, List.foldl_append]
  exact if_neg hnew

theorem UpTo.append (c : C) : (d.append n c).UpTo apply (n + 1) := by
  refine ⟨by rw [load_append h], fun r hr => ?_⟩
  rcases List.mem_append.mp hr with hold | hnew
  · exact Nat.le_succ_of_le (h.journal r hold)
  · exact (List.mem_singleton.mp hnew ▸ Nat.le_refl (n + 1))

omit h in
theorem foldl_absorb_stale (x : σ) (rs : List (Nat × C)) (hrs : ∀ r ∈ rs, r.1 ≤ n) :
    rs.foldl (absorb apply) ⟨x, n, 0⟩ = ⟨x, n, 0⟩ := by
  induction rs with
  | nil => rfl
  | cons r rs ih =>
    rw [List.foldl_cons, absorb, if_pos (hrs r (.head _))]
    exact ih fun r' hr' => hrs r' (.tail _ hr')

theorem load_compact (x : σ) {fate : CompactFate} (hfate : fate ≠ .failed) :
    (d.compact n x fate).load apply = ⟨x, n, 0⟩ := by
  cases fate with
  | failed => exact absurd rfl hfate
  | snapshot => exact foldl_absorb_stale x d.journal h.journal
  | truncated => rfl

theorem UpTo.compact (x : σ) (fate : CompactFate) : (d.compact n x fate).UpTo apply n := by
  cases fate with
  | failed => exact h
  | snapshot => exact ⟨congrArg LogView.sequence
      (foldl_absorb_stale x d.journal h.journal), h.journal⟩
  | truncated => exact ⟨rfl, nofun⟩

end

end SnapshotLog

end BetterMQ
