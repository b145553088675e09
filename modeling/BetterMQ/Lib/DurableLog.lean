import Mathlib.Data.List.Basic

/-!
# Durable logs

What a write-ahead log is for, without files: a list of records of which a prefix is known to be
on stable storage. A crash keeps that prefix and any number of the records after it.

* **`DurableLog.getElem?_crash`** — a record below the synced length survives every crash.
-/

namespace BetterMQ

theorem getElem?_of_isPrefix {α : Type} {as bs : List α} {i : Nat} {a : α} (h : as <+: bs)
    (hget : as[i]? = some a) : bs[i]? = some a := by
  obtain ⟨rest, rfl⟩ := h
  obtain ⟨hlt, -⟩ := List.getElem?_eq_some_iff.mp hget
  rw [List.getElem?_append_left hlt, hget]

/-- The records of a log, the first `synced` of them on stable storage. -/
structure DurableLog (α : Type*) where
  records : List α
  synced : Nat
  synced_le : synced ≤ records.length

namespace DurableLog

variable {α : Type*}

def empty : DurableLog α := ⟨[], 0, Nat.le_refl _⟩

def append (l : DurableLog α) (xs : List α) : DurableLog α where
  records := l.records ++ xs
  synced := l.synced
  synced_le := by
    have hle := l.synced_le
    rw [List.length_append]
    omega

def sync (l : DurableLog α) : DurableLog α := ⟨l.records, l.records.length, Nat.le_refl _⟩

/-- A crash that keeps the first `keep` records, if they are more than the synced ones. -/
def crash (l : DurableLog α) (keep : Nat) : DurableLog α where
  records := l.records.take (max keep l.synced)
  synced := l.synced
  synced_le := by
    have hle := l.synced_le
    rw [List.length_take]
    omega

@[simp] theorem records_append (l : DurableLog α) (xs : List α) :
    (l.append xs).records = l.records ++ xs := rfl

@[simp] theorem records_sync (l : DurableLog α) : l.sync.records = l.records := rfl

@[simp] theorem synced_sync (l : DurableLog α) : l.sync.synced = l.records.length := rfl

@[simp] theorem synced_append (l : DurableLog α) (xs : List α) :
    (l.append xs).synced = l.synced := rfl

theorem getElem?_crash (l : DurableLog α) (keep : Nat) {i : Nat} (h : i < l.synced) :
    (l.crash keep).records[i]? = l.records[i]? := by
  exact List.getElem?_take_of_lt (by omega)

theorem crash_isPrefix (l : DurableLog α) (keep : Nat) : (l.crash keep).records <+: l.records :=
  List.take_prefix _ _

end DurableLog

end BetterMQ
