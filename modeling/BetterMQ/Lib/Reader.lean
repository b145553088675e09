import BetterMQ.Lib.Prog
import Mathlib.Data.Nat.ModEq
import Mathlib.Tactic.Ring

/-!
# Byte readers

A `Reader` consumes a prefix of a byte list, the way code reads from a file through
`read_exact`: it returns a value or an error, and in both cases what is left of the input.

* `beBytes w n` / `beNat` — fixed-width big-endian integers;
* `Reader.readExact n` — the next `n` bytes, or the end-of-file error with the input drained;
* **`Reader.Exact p bs a`** — `p` reads exactly the bytes `bs` as `a` whatever follows, and
  on every proper prefix of `bs` it ends in the end-of-file error. Exactness composes along
  `bind`, so a decoder's round trip and its behaviour on torn input are proved together, field
  by field;
* **`Reader.Definite p`** — every input `p` accepts splits into bytes it reads exactly and the
  rest, for readers of bytes of unknown origin, and what `p` refuses it refuses whatever follows,
  unless the input ended.
-/

namespace BetterMQ

open List Prog

abbrev Bytes := List UInt8

/-! ## Big-endian integers -/

/-- The low `w` bytes of `n`, most significant first (`to_be_bytes` of a `w`-byte integer). -/
def beBytes : Nat → Nat → Bytes
  | 0, _ => []
  | w + 1, n => beBytes w (n / 256) ++ [UInt8.ofNat n]

/-- The integer a big-endian byte list denotes (`from_be_bytes`). -/
def beNat (bs : Bytes) : Nat := bs.foldl (fun acc b => acc * 256 + b.toNat) 0

@[simp] theorem length_beBytes (w n : Nat) : (beBytes w n).length = w := by
  induction w generalizing n with
  | zero => rfl
  | succ w ih => simp [beBytes, ih]

theorem beNat_beBytes (w n : Nat) : beNat (beBytes w n) = n % 256 ^ w := by
  induction w generalizing n with
  | zero => simp [beBytes, beNat, Nat.mod_one]
  | succ w ih =>
    have hlast : beNat (beBytes w (n / 256) ++ [UInt8.ofNat n])
        = beNat (beBytes w (n / 256)) * 256 + n % 256 := by
      simp [beNat, foldl_append]
    rw [beBytes, hlast, ih, Nat.pow_succ, Nat.mul_comm (256 ^ w) 256, Nat.mod_mul]
    omega

theorem beNat_beBytes_of_lt {w n : Nat} (h : n < 256 ^ w) : beNat (beBytes w n) = n := by
  rw [beNat_beBytes, Nat.mod_eq_of_lt h]

theorem beBytes_beNat {w : Nat} {bs : Bytes} (h : bs.length = w) : beBytes w (beNat bs) = bs := by
  induction w generalizing bs with
  | zero => rw [length_eq_zero_iff.mp h, beBytes]
  | succ w ih =>
    obtain ⟨init, b, rfl⟩ : ∃ init b, bs = init ++ [b] := by
      refine ⟨bs.dropLast, bs.getLast (ne_nil_of_length_eq_add_one h), ?_⟩
      exact (dropLast_append_getLast _).symm
    have hinit : init.length = w := by
      rw [length_append, length_singleton] at h
      omega
    have hvalue : beNat (init ++ [b]) = beNat init * 256 + b.toNat := by
      simp [beNat, foldl_append]
    have hb := b.toNat_lt
    rw [beBytes, hvalue, show (beNat init * 256 + b.toNat) / 256 = beNat init by omega, ih hinit]
    congr 2
    rw [UInt8.ofNat_eq_iff_mod_eq_toNat]
    omega

theorem beNat_lt (bs : Bytes) : beNat bs < 256 ^ bs.length := by
  have hback := beNat_beBytes bs.length (beNat bs)
  rw [beBytes_beNat rfl] at hback
  rw [hback]
  exact Nat.mod_lt _ (Nat.pow_pos (by decide))

theorem foldl_beNat (acc : Nat) (bs : Bytes) :
    bs.foldl (fun acc b => acc * 256 + b.toNat) acc = acc * 256 ^ bs.length + beNat bs := by
  unfold beNat
  induction bs generalizing acc with
  | nil => simp
  | cons b bs ih =>
    rw [foldl_cons, foldl_cons, ih (acc * 256 + b.toNat), ih (0 * 256 + b.toNat), length_cons]
    ring

/-- A field that starts with a nonzero byte is large. -/
theorem le_beNat_of_ne_zero {b : UInt8} (hb : b ≠ 0) (bs : Bytes) :
    256 ^ bs.length ≤ beNat (b :: bs) := by
  have hpos : 0 < b.toNat := by
    rw [Nat.pos_iff_ne_zero]
    exact fun h => hb (UInt8.toNat_inj.mp h)
  have hvalue : beNat (b :: bs) = b.toNat * 256 ^ bs.length + beNat bs := by
    rw [beNat, foldl_cons, foldl_beNat, Nat.zero_add]
  rw [hvalue]
  exact Nat.le_add_right_of_le (Nat.le_mul_of_pos_left _ hpos)

/-! ## Readers -/

/-- A reader: a program whose state is the input that is left. -/
abbrev Reader (ε α : Type) : Type := Prog Bytes ε α

/-- Errors that have an end-of-file case. -/
class EofError (ε : Type) where
  eof : ε

namespace Reader

variable {ε α β : Type} [EofError ε]

/-- The next `n` bytes. Fewer left is end of file, and drains the input. -/
def readExact (n : Nat) : Reader ε Bytes := fun s =>
  if s.length < n then (.error EofError.eof, []) else (.ok (s.take n), s.drop n)

/-- A big-endian integer of `w` bytes. -/
def readBe (w : Nat) : Reader ε Nat := do
  let bs ← readExact w
  pure (beNat bs)

variable {s bs : Bytes} {n w : Nat}

theorem readExact_short (h : s.length < n) :
    (readExact n : Reader ε Bytes) s = (.error EofError.eof, []) := if_pos h

theorem readExact_long (h : n ≤ s.length) :
    (readExact n : Reader ε Bytes) s = (.ok (s.take n), s.drop n) := if_neg (Nat.not_lt.mpr h)

theorem readBe_short (h : s.length < w) : (readBe w : Reader ε Nat) s = (.error EofError.eof, []) :=
  bind_error (readExact_short h)

theorem readBe_long (h : w ≤ s.length) :
    (readBe w : Reader ε Nat) s = (.ok (beNat (s.take w)), s.drop w) :=
  bind_ok (readExact_long h)

theorem readExact_eq_ok {s s' : Bytes} (h : (readExact n : Reader ε Bytes) s = (.ok bs, s')) :
    s = bs ++ s' ∧ bs.length = n := by
  unfold readExact at h
  split at h
  · cases h
  · next hlen =>
    cases h
    refine ⟨(take_append_drop n s).symm, ?_⟩
    rw [length_take]
    omega

theorem readBe_eq_ok {s s' : Bytes} (h : (readBe w : Reader ε Nat) s = (.ok n, s')) :
    s = beBytes w n ++ s' ∧ n < 256 ^ w := by
  obtain ⟨bs, s₁, hread, hpure⟩ := bind_eq_ok h
  cases hpure
  obtain ⟨rfl, rfl⟩ := readExact_eq_ok hread
  exact ⟨by rw [beBytes_beNat rfl], beNat_lt bs⟩

/-! ## Exact readers -/

/-- `p` reads exactly `bs` as `a`: whatever follows is left untouched, and every proper prefix
of `bs` is recognised as torn. -/
structure Exact (p : Reader ε α) (bs : Bytes) (a : α) : Prop where
  ok : ∀ rest, p (bs ++ rest) = (.ok a, rest)
  torn : ∀ pre, pre <+: bs → pre ≠ bs → p pre = (.error EofError.eof, [])

theorem Exact.pure (a : α) : Exact (ε := ε) (pure a) [] a where
  ok _ := rfl
  torn _ hpre hne := absurd (prefix_nil.mp hpre) hne

theorem Exact.check {c : Prop} [Decidable c] (hc : c) (e : ε) : Exact (Prog.check c e) [] () := by
  unfold Prog.check
  rw [if_pos hc]
  exact Exact.pure ()

theorem Exact.lift (a : α) : Exact (ε := ε) (Prog.lift (.ok a)) [] a := Exact.pure a

theorem Exact.readExact (h : bs.length = n) :
    Exact (ε := ε) (Reader.readExact n) bs bs where
  ok rest := by
    subst h
    simp [Reader.readExact]
  torn pre hpre hne := by
    have hlt : pre.length < n := by
      rcases Nat.lt_or_ge pre.length n with hlt | hge
      · exact hlt
      · exact absurd (hpre.eq_of_length_le (by omega)) hne
    simp [Reader.readExact, hlt]

variable {p : Reader ε α} {f : α → Reader ε β}

theorem Exact.bind {cs : Bytes} {a : α} {b : β} (hp : Exact p bs a) (hf : Exact (f a) cs b) :
    Exact (p >>= f) (bs ++ cs) b where
  ok rest := by
    rw [append_assoc, bind_ok (hp.ok (cs ++ rest)), hf.ok]
  torn pre hpre hne := by
    -- the cut is inside the first reader's bytes, or after them inside the second's
    obtain ⟨t, ht⟩ := hpre
    rcases append_eq_append_iff.mp ht with ⟨c, hbs, -⟩ | ⟨cut, rfl, hcut⟩
    · have hfirst : pre <+: bs := ⟨c, hbs.symm⟩
      by_cases hall : pre = bs
      · subst hall
        have hcs : ([] : Bytes) ≠ cs := by
          rintro rfl
          simp at hne
        have hok := hp.ok []
        rw [append_nil] at hok
        rw [bind_ok hok, hf.torn [] nil_prefix hcs]
      · exact bind_error (hp.torn pre hfirst hall)
    · have hcne : cut ≠ cs := by
        rintro rfl
        exact hne rfl
      rw [bind_ok (hp.ok cut), hf.torn cut ⟨t, hcut.symm⟩ hcne]

theorem Exact.readBe (w n : Nat) :
    Exact (ε := ε) (Reader.readBe w) (beBytes w n) (n % 256 ^ w) := by
  have h := (Exact.readExact (length_beBytes w n)).bind
    (f := fun bs => (Pure.pure (beNat bs) : Reader ε Nat)) (Exact.pure (beNat (beBytes w n)))
  rw [append_nil, beNat_beBytes] at h
  exact h

/-! ## Definite readers -/

/-- Whatever `p` accepts, it reads exactly: the value depends on the consumed bytes alone. -/
def Streaming (p : Reader ε α) : Prop :=
  ∀ s a s', p s = (.ok a, s') → ∃ used, s = used ++ s' ∧ Exact p used a

/-- Whatever `p` refuses, it refuses with the same error on every longer input, unless the input
ended. -/
def Decisive (p : Reader ε α) : Prop :=
  ∀ s e s', p s = (.error e, s') →
    (e = EofError.eof ∧ s' = []) ∨ ∀ rest, p (s ++ rest) = (.error e, s' ++ rest)

/-- What follows the bytes that `p` has read changes nothing. -/
structure Definite (p : Reader ε α) : Prop where
  streaming : Streaming p
  decisive : Decisive p

theorem Definite.pure (a : α) : Definite (ε := ε) (pure a) where
  streaming s b s' h := by
    cases h
    exact ⟨[], rfl, .pure a⟩
  decisive := nofun

theorem Definite.lift (r : Except ε α) : Definite (Prog.lift r) where
  streaming s a s' h := by
    cases h
    exact ⟨[], rfl, .lift a⟩
  decisive s e s' h := by
    cases h
    exact .inr fun rest => rfl

theorem Definite.check (c : Prop) [Decidable c] (e : ε) : Definite (Prog.check c e) := by
  unfold Prog.check
  split
  · exact .pure ()
  · exact .lift (.error e)

theorem Definite.readExact (n : Nat) : Definite (ε := ε) (Reader.readExact n) where
  streaming s a s' h := by
    unfold Reader.readExact at h
    split at h
    · cases h
    · next hlen =>
      cases h
      exact ⟨s.take n, (take_append_drop n s).symm, .readExact (by simp; omega)⟩
  decisive s e s' h := by
    unfold Reader.readExact at h
    split at h
    · cases h
      exact .inl ⟨rfl, rfl⟩
    · cases h

theorem Definite.bind (hp : Definite p) (hf : ∀ a, Definite (f a)) :
    Definite (p >>= f) where
  streaming s b s'' h := by
    obtain ⟨a, s', hfirst, hsecond⟩ := bind_eq_ok h
    obtain ⟨used, rfl, hexact⟩ := hp.streaming s a s' hfirst
    obtain ⟨used', rfl, hexact'⟩ := (hf a).streaming s' b s'' hsecond
    exact ⟨used ++ used', (append_assoc _ _ _).symm, .bind hexact hexact'⟩
  decisive s e s'' h := by
    rcases hfirst : p s with ⟨e' | a, s'⟩
    · rw [bind_error hfirst] at h
      cases h
      rcases hp.decisive s e s'' hfirst with heof | hstays
      · exact .inl heof
      · exact .inr fun rest => bind_error (hstays rest)
    · rw [bind_ok hfirst] at h
      obtain ⟨used, rfl, hexact⟩ := hp.streaming s a s' hfirst
      rcases (hf a).decisive s' e s'' h with heof | hstays
      · exact .inl heof
      · refine .inr fun rest => ?_
        rw [append_assoc, bind_ok (hexact.ok _)]
        exact hstays rest

theorem Definite.readBe (w : Nat) : Definite (ε := ε) (Reader.readBe w) :=
  .bind (.readExact w) fun bs => .pure (beNat bs)

/-- Less of an input that ended too early ends too early. -/
theorem Definite.eof_take (hp : Definite p) (h : (p s).1 = .error EofError.eof) (n : Nat) :
    (p (s.take n)).1 = .error EofError.eof := by
  rw [← take_append_drop n s] at h
  generalize s.take n = front at h ⊢
  rcases hcut : p front with ⟨e | a, left⟩
  · rcases hp.decisive front e left hcut with ⟨rfl, -⟩ | hstays
    · rfl
    · rw [hstays] at h
      exact h
  · obtain ⟨used, rfl, hexact⟩ := hp.streaming front a left hcut
    rw [append_assoc, hexact.ok] at h
    cases h

end Reader

end BetterMQ
