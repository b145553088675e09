import Mathlib.Data.List.Basic

/-!
# Lineages

A lineage gives every element the list it was first appended to, itself at the end. Logs that grow
along one lineage may be cut anywhere and continued differently, and still:

* **`Lineage.agree`** — two of them that hold the same element at the same place agree below it.
-/

namespace BetterMQ

open List

variable {α : Type*} {P P' : α → List α} {log log' : List α} {a : α} {k : Nat}

/-- Each element of the log ends the list that the lineage gives for it. -/
def Lineage (P : α → List α) (log : List α) : Prop :=
  ∀ (k : Nat) (a : α), log[k]? = some a → P a = log.take (k + 1)

namespace Lineage

theorem nil : Lineage P [] := by
  intro k a hk
  simp at hk

section

variable (h : Lineage P log)

include h

theorem of_isPrefix (hpre : log' <+: log) : Lineage P log' := by
  obtain ⟨rest, rfl⟩ := hpre
  intro k a hk
  obtain ⟨hlt, -⟩ := List.getElem?_eq_some_iff.mp hk
  have hlong : (log' ++ rest)[k]? = some a := by
    rw [getElem?_append_left hlt]
    exact hk
  rw [h k a hlong, take_append_of_le_length hlt]

theorem congr (hsame : ∀ a ∈ log, P' a = P a) : Lineage P' log := by
  intro k a hk
  rw [hsame a (mem_of_getElem? hk)]
  exact h k a hk

theorem concat (ha : P a = log ++ [a]) : Lineage P (log ++ [a]) := by
  intro k a' hk
  by_cases hlt : k < log.length
  · rw [getElem?_append_left hlt] at hk
    rw [h k a' hk, take_append_of_le_length hlt]
  · rw [getElem?_append_right (Nat.le_of_not_lt hlt), getElem?_singleton] at hk
    split at hk
    · next hzero =>
      cases hk
      rw [ha, take_of_length_le]
      simp
      omega
    · cases hk

/-- The last element of a log stands for the whole log. -/
theorem eq_of_getLast? (ha : log.getLast? = some a) : P a = log := by
  rw [getLast?_eq_getElem?] at ha
  obtain ⟨hlt, -⟩ := List.getElem?_eq_some_iff.mp ha
  rw [h _ a ha, take_of_length_le]
  omega

/-- **Logs of one lineage that meet agree below.** -/
theorem agree (h' : Lineage P log') (hk : log[k]? = some a)
    (hk' : log'[k]? = some a) {j : Nat} (hj : j ≤ k) : log[j]? = log'[j]? := by
  have hsame : log.take (k + 1) = log'.take (k + 1) := (h k a hk).symm.trans (h' k a hk')
  have hat := congrArg (fun l => l[j]?) hsame
  have hlt : j < k + 1 := Nat.lt_succ_of_le hj
  simpa only [getElem?_take_of_lt hlt] using hat

end

/-! ## New elements -/

variable [DecidableEq α] {new : List α}

/-- The lineage in which new elements follow a log. -/
def extend (P : α → List α) (log new : List α) (a : α) : List α :=
  if a ∈ new then log ++ new.take (new.idxOf a + 1) else P a

theorem extend_of_not_mem (ha : a ∉ new) : extend P log new a = P a := if_neg ha

theorem append (h : Lineage P log) (hnodup : new.Nodup) (hfresh : ∀ a ∈ new, a ∉ log) :
    Lineage (extend P log new) (log ++ new) := by
  intro k a hk
  by_cases hlt : k < log.length
  · rw [getElem?_append_left hlt] at hk
    have hold : a ∉ new := fun hnew => hfresh a hnew (mem_of_getElem? hk)
    rw [extend_of_not_mem hold, h k a hk, take_append_of_le_length hlt]
  · have hle : log.length ≤ k := Nat.le_of_not_lt hlt
    rw [getElem?_append_right hle] at hk
    obtain ⟨hbound, hget⟩ := List.getElem?_eq_some_iff.mp hk
    have hidx : new.idxOf a = k - log.length := by
      rw [← hget]
      exact hnodup.idxOf_getElem _ hbound
    have hsub : k + 1 - log.length = k - log.length + 1 := by omega
    rw [extend, if_pos (mem_of_getElem? hk), hidx, take_append,
      take_of_length_le (Nat.le_succ_of_le hle), hsub]

end Lineage

end BetterMQ
