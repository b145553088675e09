import Mathlib.Data.List.Basic

/-!
# The selected elements of a list

A list and the sublist of its elements that pass a test, with the two maps between their positions:
`rank` counts the selected elements before a position, `place` finds the position of the selected
element with a given number. Together they say how what is visible of a shared list is numbered.

* **`getElem?_filter`** — the selected element with number `r` stands at `place r`;
* **`place_rank`**, **`rank_place`** — the two are inverse at selected positions;
* **`le_iff_rank_le`** — `rank` keeps the order of selected positions.
-/

namespace BetterMQ.Select

open List

variable {α : Type} (p : α → Bool)

/-- The number of selected elements before a position. -/
def rank (xs : List α) (position : Nat) : Nat := (xs.take position).countP p

/-- The position of the selected element with a number; behind the list if there is none. -/
def place : List α → Nat → Nat
  | [], r => r
  | x :: xs, r =>
    if p x then if r = 0 then 0 else place xs (r - 1) + 1
    else place xs r + 1

variable {p} {x : α} {i j : Nat}

theorem place_cons_zero (xs : List α) (hx : p x) : place p (x :: xs) 0 = 0 := by
  rw [place, if_pos hx, if_pos rfl]

theorem place_cons_succ (xs : List α) (r : Nat) (hx : p x) :
    place p (x :: xs) (r + 1) = place p xs r + 1 := by
  rw [place, if_pos hx, if_neg (Nat.succ_ne_zero r), Nat.add_sub_cancel]

theorem place_cons_of_not (xs : List α) (r : Nat) (hx : ¬p x) :
    place p (x :: xs) r = place p xs r + 1 := by
  rw [place, if_neg hx]

@[simp] theorem rank_zero (xs : List α) : rank p xs 0 = 0 := by
  simp [rank]

theorem rank_cons_succ (x : α) (xs : List α) (i : Nat) :
    rank p (x :: xs) (i + 1) = rank p xs i + if p x then 1 else 0 := by
  rw [rank, take_succ_cons, countP_cons]
  rfl

theorem rank_mono (xs : List α) (h : i ≤ j) : rank p xs i ≤ rank p xs j :=
  (take_sublist_take_left h).countP_le

theorem rank_le_length (xs : List α) (i : Nat) : rank p xs i ≤ (xs.filter p).length := by
  rw [← countP_eq_length_filter]
  exact (take_sublist i xs).countP_le

theorem rank_length (xs : List α) : rank p xs xs.length = (xs.filter p).length := by
  rw [rank, take_length, countP_eq_length_filter]

variable {xs : List α} {r : Nat}

theorem rank_append (ys : List α) (h : i ≤ xs.length) : rank p (xs ++ ys) i = rank p xs i := by
  rw [rank, rank, take_append_of_le_length h]

theorem rank_succ_of_selected (hget : xs[i]? = some x) (hx : p x) :
    rank p xs (i + 1) = rank p xs i + 1 := by
  rw [rank, rank, take_add_one, hget]
  simp [hx]

/-- **The selected element with number `r` stands at `place r`.** -/
theorem getElem?_filter (xs : List α) (r : Nat) : (xs.filter p)[r]? = xs[place p xs r]? := by
  induction xs generalizing r with
  | nil => rfl
  | cons x xs ih =>
    rw [filter_cons]
    split
    · next hx =>
      cases r with
      | zero =>
        rw [place_cons_zero xs hx]
        rfl
      | succ r =>
        rw [place_cons_succ xs r hx]
        exact ih r
    · next hx =>
      rw [place_cons_of_not xs r hx]
      exact ih r

theorem place_rank (hget : xs[i]? = some x) (hx : p x) : place p xs (rank p xs i) = i := by
  induction xs generalizing i with
  | nil => cases hget
  | cons y ys ih =>
    cases i with
    | zero =>
      cases hget
      rw [rank_zero, place_cons_zero ys hx]
    | succ i =>
      rw [rank_cons_succ]
      split
      · next hy => rw [place_cons_succ ys _ hy, ih hget]
      · next hy => rw [Nat.add_zero, place_cons_of_not ys _ hy, ih hget]

theorem selected_at_place (hget : xs[place p xs r]? = some x) : p x := by
  rw [← getElem?_filter] at hget
  exact (mem_filter.mp (mem_of_getElem? hget)).2

theorem rank_place (h : r < (xs.filter p).length) : rank p xs (place p xs r) = r := by
  induction xs generalizing r with
  | nil => exact absurd h (Nat.not_lt_zero _)
  | cons x xs ih =>
    rw [filter_cons] at h
    split at h
    · next hx =>
      cases r with
      | zero => rw [place_cons_zero xs hx, rank_zero]
      | succ r =>
        rw [place_cons_succ xs r hx, rank_cons_succ, if_pos hx, ih (Nat.lt_of_succ_lt_succ h)]
    · next hx => rw [place_cons_of_not xs r hx, rank_cons_succ, if_neg hx, ih h, Nat.add_zero]

theorem length_le_place_iff : xs.length ≤ place p xs r ↔ (xs.filter p).length ≤ r := by
  rw [← getElem?_eq_none_iff, ← getElem?_eq_none_iff, getElem?_filter]

/-- A position corresponds to a number if it lies before the same selected elements. -/
def Corresponds (p : α → Bool) (xs : List α) (position r : Nat) : Prop :=
  ∀ i x, xs[i]? = some x → p x → (position ≤ i ↔ r ≤ rank p xs i)

/-- **`rank` keeps the order of selected positions.** -/
theorem corresponds_rank (xs : List α) (position : Nat) :
    Corresponds p xs position (rank p xs position) := by
  intro i x hget hx
  constructor
  · exact rank_mono xs
  · intro h
    by_contra hlt
    have hstep := rank_mono (p := p) xs (Nat.lt_of_not_le hlt)
    rw [rank_succ_of_selected hget hx] at hstep
    omega

theorem corresponds_place (xs : List α) (r : Nat) : Corresponds p xs (place p xs r) r := by
  intro i x hget hx
  rcases Nat.lt_or_ge r (xs.filter p).length with hlt | hge
  · have h := corresponds_rank xs (place p xs r) i x hget hx
    rw [rank_place hlt] at h
    exact h
  · -- both sides are false: the place is behind the list, the number is too large
    obtain ⟨hi, -⟩ := List.getElem?_eq_some_iff.mp hget
    have hplace := length_le_place_iff.mpr hge
    have hrank := rank_le_length (p := p) xs (i + 1)
    rw [rank_succ_of_selected hget hx] at hrank
    constructor <;> intro h <;> omega

theorem rank_le_iff {y : α} (i : Nat) (hj : xs[j]? = some y) (hy : p y) :
    rank p xs i ≤ rank p xs j ↔ i ≤ j :=
  (corresponds_rank xs i j y hj hy).symm

/-! ## Lists in which everything is selected -/

theorem rank_of_all (h : ∀ x ∈ xs, p x) (hi : i ≤ xs.length) : rank p xs i = i := by
  have hall : (xs.take i).countP p = (xs.take i).length :=
    countP_eq_length.mpr fun x hx => h x (mem_of_mem_take hx)
  rw [rank, hall, length_take, Nat.min_eq_left hi]

theorem place_of_all (h : ∀ x ∈ xs, p x) (r : Nat) : place p xs r = r := by
  induction xs generalizing r with
  | nil => rfl
  | cons x xs ih =>
    have hx := h x (.head _)
    cases r with
    | zero => exact place_cons_zero xs hx
    | succ r => rw [place_cons_succ xs r hx, ih fun y hy => h y (.tail _ hy)]

end BetterMQ.Select
