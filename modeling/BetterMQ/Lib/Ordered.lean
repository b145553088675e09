import Mathlib.Algebra.Order.Ring.Nat
import Mathlib.Data.List.Sort

/-!
# Ordered names and ordered maps

Two small ordered structures that storage code leans on.

* `padded w n` — the decimal numeral of `n`, zero-padded to width `w`, as `{n:0w}` prints it.
  **`padded_lt`**: below `10 ^ w` the order of names is the order of numbers;
  **`padded_injective`**: names never collide, at any width.
* `KeyMap α` — a map from numbers kept as its entries in key order (a `BTreeMap`), with the
  operations `insert`, `erase` and `range`.
-/

namespace BetterMQ

open List

/-! ## Zero-padded numerals -/

/-- The decimal digits of `n`, zero-padded to width `w`. -/
def padded (w n : Nat) : List Char := (Nat.toDigits 10 n).leftpad w '0'

theorem ofDigitChars_padded (w n : Nat) : Nat.ofDigitChars 10 (padded w n) 0 = n := by
  unfold padded List.leftpad
  rw [Nat.ofDigitChars_append, Nat.ofDigitChars_replicate_zero]
  exact Nat.ofDigitChars_ten_toDigits

theorem padded_injective (w : Nat) : Function.Injective (padded w) := by
  intro m n h
  have hval := ofDigitChars_padded w m
  rw [h, ofDigitChars_padded] at hval
  exact hval.symm

theorem isDigit_of_mem_padded {w n : Nat} {c : Char} (h : c ∈ padded w n) : c.isDigit = true := by
  rcases mem_append.mp h with hzero | hdigit
  · rw [eq_of_mem_replicate hzero]
    rfl
  · exact Nat.isDigit_of_mem_toDigits (by decide) (by decide) hdigit

theorem length_padded {w n : Nat} (hw : 0 < w) (h : n < 10 ^ w) : (padded w n).length = w := by
  have hle := (Nat.length_toDigits_le_iff (by decide : 1 < 10) hw).mpr h
  rw [padded, length_leftpad]
  omega

theorem isDigit_bounds {c : Char} (h : c.isDigit = true) : 48 ≤ c.toNat ∧ c.toNat ≤ 57 := by
  simp only [Char.isDigit, Bool.and_eq_true, decide_eq_true_eq] at h
  exact ⟨UInt32.le_iff_toNat_le.mp h.1, UInt32.le_iff_toNat_le.mp h.2⟩

theorem ofDigitChars_lt {cs : List Char} (h : ∀ c ∈ cs, c.isDigit = true) :
    Nat.ofDigitChars 10 cs 0 < 10 ^ cs.length := by
  induction cs with
  | nil => simp [Nat.ofDigitChars_nil]
  | cons c cs ih =>
    have hc := isDigit_bounds (h c (by simp))
    have htail := ih fun d hd => h d (by simp [hd])
    have hdigit : c.toNat - '0'.toNat ≤ 9 := by
      show c.toNat - 48 ≤ 9
      omega
    rw [Nat.ofDigitChars_cons, Nat.ofDigitChars_eq_ofDigitChars_zero, length_cons]
    have hhead : 10 ^ cs.length * (10 * 0 + (c.toNat - '0'.toNat)) ≤ 10 ^ cs.length * 9 :=
      Nat.mul_le_mul_left _ (by omega)
    omega

/-- Numerals of one length are ordered as the numbers they denote. -/
theorem lt_of_ofDigitChars_lt {cs ds : List Char} (hlen : cs.length = ds.length)
    (hcs : ∀ c ∈ cs, c.isDigit = true) (hds : ∀ c ∈ ds, c.isDigit = true)
    (h : Nat.ofDigitChars 10 cs 0 < Nat.ofDigitChars 10 ds 0) : cs < ds := by
  induction cs generalizing ds with
  | nil =>
    rw [length_nil, eq_comm, length_eq_zero_iff] at hlen
    subst hlen
    exact absurd h (lt_irrefl _)
  | cons c cs ih =>
    cases ds with
    | nil => cases hlen
    | cons d ds =>
      have hlen' : cs.length = ds.length := Nat.succ.inj hlen
      have hcs' := fun e he => hcs e (mem_cons_of_mem c he)
      have hds' := fun e he => hds e (mem_cons_of_mem d he)
      have hc := isDigit_bounds (hcs c (by simp))
      have hd := isDigit_bounds (hds d (by simp))
      have hct := ofDigitChars_lt hcs'
      have hdt := ofDigitChars_lt hds'
      rw [Nat.ofDigitChars_cons, Nat.ofDigitChars_eq_ofDigitChars_zero,
        Nat.ofDigitChars_cons, Nat.ofDigitChars_eq_ofDigitChars_zero (l := ds),
        hlen'] at h
      have hzero : '0'.toNat = 48 := rfl
      rw [hzero] at h
      -- the leading digits decide, and equal ones leave the tails
      rcases Nat.lt_trichotomy c.toNat d.toNat with hlt | heq | hgt
      · exact cons_lt_cons_iff.mpr (.inl hlt)
      · have hcd : c = d := Char.toNat_inj.mp heq
        subst hcd
        exact cons_lt_cons_iff.mpr (.inr ⟨rfl, ih hlen' hcs' hds' (by omega)⟩)
      · exfalso
        have hstep : 10 ^ ds.length * (10 * 0 + (d.toNat - 48) + 1)
            ≤ 10 ^ ds.length * (10 * 0 + (c.toNat - 48)) := Nat.mul_le_mul_left _ (by omega)
        rw [Nat.mul_add] at hstep
        omega

/-- **Padded numerals sort as numbers** while they fit the width. -/
theorem padded_lt {w m n : Nat} (hw : 0 < w) (hmn : m < n) (hn : n < 10 ^ w) :
    padded w m < padded w n := by
  apply lt_of_ofDigitChars_lt
  · rw [length_padded hw (hmn.trans hn), length_padded hw hn]
  · exact fun _ => isDigit_of_mem_padded
  · exact fun _ => isDigit_of_mem_padded
  · rw [ofDigitChars_padded, ofDigitChars_padded]
    exact hmn

/-- Where two lists differ before either ends, nothing after that matters. -/
theorem append_lt_append {α : Type} [LT α] {xs ys : List α} (h : xs < ys) (hstarts : ¬ xs <+: ys)
    (zs ws : List α) : xs ++ zs < ys ++ ws := by
  induction xs generalizing ys with
  | nil => exact absurd nil_prefix hstarts
  | cons x xs ih =>
    cases ys with
    | nil => exact absurd h not_lex_nil
    | cons y ys =>
      rw [cons_append, cons_append, cons_lt_cons_iff]
      rcases cons_lt_cons_iff.mp h with hlt | ⟨rfl, htail⟩
      · exact .inl hlt
      · exact .inr ⟨rfl, ih htail fun hp => hstarts (cons_prefix_cons.mpr ⟨rfl, hp⟩)⟩

theorem find?_of_nodup {α β : Type} [DecidableEq α] {entries : List (α × β)}
    (hnodup : (entries.map Prod.fst).Nodup) {g : α × β} (hg : g ∈ entries) :
    entries.find? (fun e => e.1 = g.1) = some g := by
  induction entries with
  | nil => cases hg
  | cons e es ih =>
    rw [map_cons, nodup_cons] at hnodup
    rcases mem_cons.mp hg with rfl | hmem
    · simp
    · have hne : e.1 ≠ g.1 := by
        intro heq
        exact hnodup.1 (heq ▸ mem_map_of_mem hmem)
      rw [find?_cons_of_neg (by simpa using hne)]
      exact ih hnodup.2 hmem

/-! ## Maps in key order -/

/-- A map from numbers, as its entries in key order. -/
abbrev KeyMap (α : Type) := List (Nat × α)

namespace KeyMap

variable {α : Type} {k : Nat} {m : KeyMap α} {v : α}

/-- Put `v` at `k`, between the smaller and the greater keys. -/
def insert (k : Nat) (v : α) (m : KeyMap α) : KeyMap α :=
  m.filter (fun e => e.1 < k) ++ (k, v) :: m.filter (fun e => k < e.1)

def erase (k : Nat) (m : KeyMap α) : KeyMap α := m.filter fun e => e.1 ≠ k

def contains (k : Nat) (m : KeyMap α) : Bool := m.any fun e => e.1 = k

/-- The entries from `start` on. -/
def range (start : Nat) (m : KeyMap α) : KeyMap α := m.filter fun e => start ≤ e.1

theorem mem_insert {e : Nat × α} (h : e ∈ insert k v m) : e = (k, v) ∨ e ∈ m := by
  rcases mem_append.mp h with hlow | hhigh
  · exact .inr (mem_filter.mp hlow).1
  · rcases mem_cons.mp hhigh with rfl | hrest
    · exact .inl rfl
    · exact .inr (mem_filter.mp hrest).1

/-- Between the smaller and the greater keys, an insertion replaces what stood at its key. -/
theorem insert_append {low high : KeyMap α} (hlow : ∀ e ∈ low, e.1 < k)
    (hhigh : ∀ e ∈ high, k ≤ e.1) :
    insert k v (low ++ high) = low ++ (k, v) :: high.filter fun e => k < e.1 := by
  have h₁ : low.filter (fun e => e.1 < k) = low := filter_eq_self.mpr (by simpa using hlow)
  have h₂ : low.filter (fun e => k < e.1) = [] := by
    rw [filter_eq_nil_iff]
    intro e he
    have := hlow e he
    simp only [decide_eq_true_eq]
    omega
  have h₃ : high.filter (fun e => e.1 < k) = [] := by
    rw [filter_eq_nil_iff]
    intro e he
    have := hhigh e he
    simp only [decide_eq_true_eq]
    omega
  rw [insert, filter_append, filter_append, h₁, h₂, h₃, append_nil, nil_append]

theorem insert_of_forall_lt (h : ∀ e ∈ m, e.1 < k) : insert k v m = m ++ [(k, v)] := by
  have hsplit : insert k v (m ++ []) = m ++ (k, v) :: List.filter (fun e => k < e.1) [] :=
    insert_append h (forall_mem_nil _)
  simpa using hsplit

end KeyMap

end BetterMQ
