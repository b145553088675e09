import Mathlib.Data.List.Basic

/-!
# Lists of slots

A machine with many threads keeps them in a list: a thread starts by being added at the end and
goes on by being replaced in place, so that its index names it for ever.

* **`getElem?_set_cases`**, **`getElem?_snoc`**, **`mem_snoc`** — what stands there after either;
* **`countP_set_add`** — how the counts change;
* **`AtMostOne.set`**, **`AtMostOne.snoc`** — when "no two slots are related" is kept.
-/

namespace BetterMQ

open List Option

variable {α : Type*} {xs : List α} {i j : Nat} {x x' y : α} {R : α → α → Prop}

theorem mem_snoc : y ∈ xs ++ [x] ↔ y ∈ xs ∨ y = x := by
  rw [mem_append, mem_singleton]

theorem getElem?_set_cases (hx : xs[i]? = some x) (hy : (xs.set i x')[j]? = some y) :
    (i = j ∧ y = x') ∨ (i ≠ j ∧ xs[j]? = some y) := by
  by_cases hij : i = j
  · subst hij
    rw [getElem?_set_self (List.getElem?_eq_some_iff.mp hx).1, some_inj] at hy
    exact .inl ⟨rfl, hy.symm⟩
  · rw [getElem?_set_ne hij] at hy
    exact .inr ⟨hij, hy⟩

theorem getElem?_snoc (hy : (xs ++ [x])[j]? = some y) :
    xs[j]? = some y ∨ (j = xs.length ∧ y = x) := by
  rcases Nat.lt_or_ge j xs.length with hlt | hge
  · rw [getElem?_append_left hlt] at hy
    exact .inl hy
  · rw [getElem?_append_right hge, getElem?_singleton] at hy
    obtain ⟨hj, hy⟩ := ite_none_right_eq_some.mp hy
    exact .inr ⟨by omega, (some_inj.mp hy).symm⟩

theorem countP_set_add (hx : xs[i]? = some x) (x' : α) (p : α → Bool) :
    (xs.set i x').countP p + (p x).toNat = xs.countP p + (p x').toNat := by
  obtain ⟨hlt, hd⟩ := List.getElem?_eq_some_iff.mp hx
  cases hp : p x <;> cases hp' : p x' <;> grind

/-- No two slots are related. -/
def AtMostOne (R : α → α → Prop) (xs : List α) : Prop :=
  ∀ (i j : Nat) (x y : α), xs[i]? = some x → xs[j]? = some y → R x y → i = j

theorem atMostOne_nil : AtMostOne R [] := fun _ _ _ _ h => by cases h

/-- A slot is replaced by one that is related to no more than it was. -/
theorem AtMostOne.set (h : AtMostOne R xs) (hx : xs[i]? = some x)
    (hleft : ∀ y, R x' y → R x y) (hright : ∀ y, R y x' → R y x) : AtMostOne R (xs.set i x') := by
  intro j k y z hy hz hR
  rcases getElem?_set_cases hx hy with ⟨rfl, rfl⟩ | ⟨-, hold⟩
  · rcases getElem?_set_cases hx hz with ⟨hik, -⟩ | ⟨-, hold'⟩
    · exact hik
    · exact h i k x z hx hold' (hleft z hR)
  · rcases getElem?_set_cases hx hz with ⟨rfl, rfl⟩ | ⟨-, hold'⟩
    · exact h j i y x hold hx (hright y hR)
    · exact h j k y z hold hold' hR

/-- A slot is added that is related to none. -/
theorem AtMostOne.snoc (h : AtMostOne R xs) (hleft : ∀ y ∈ xs, ¬R x y) (hright : ∀ y ∈ xs, ¬R y x) :
    AtMostOne R (xs ++ [x]) := by
  intro j k y z hy hz hR
  rcases getElem?_snoc hy with hold | ⟨rfl, rfl⟩
  · rcases getElem?_snoc hz with hold' | ⟨rfl, rfl⟩
    · exact h j k y z hold hold' hR
    · exact absurd hR (hright y (mem_of_getElem? hold))
  · rcases getElem?_snoc hz with hold' | ⟨rfl, rfl⟩
    · exact absurd hR (hleft z (mem_of_getElem? hold'))
    · rfl

end BetterMQ
