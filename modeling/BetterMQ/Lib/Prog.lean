import Mathlib.Data.List.Basic

/-!
# Programs over a state, with errors

`Prog σ ε α` is code that reads and writes a state `σ` and ends in a value or in an error; an
error keeps the state reached so far, as an early `return Err(..)` keeps what was already
written. A file cursor is such a state, and so is a data structure with its directory.

* **`Prog.Keeps R p s`** — from `s`, whatever the outcome, `p` ends in a state `R` relates to `s`;
  `Keeps.bind` chains two such facts; `Ends` adds what the errors of `p` are;
* **`Prog.Related S V p q s t`** — two programs run side by side end in related states with values
  that agree; `Related.bind` chains two such facts;
* **`Prog.forM_invariant`** — a visit of a list keeps what every single visit keeps.
-/

namespace BetterMQ

theorem exists_of_bind_eq_ok {ε α β : Type} {x : Except ε α} {f : α → Except ε β} {b : β}
    (h : x >>= f = .ok b) : ∃ a, x = .ok a ∧ f a = .ok b := by
  cases x with
  | error e => cases h
  | ok a => exact ⟨a, rfl, h⟩

theorem cases_of_bind_eq_error {ε α β : Type} {x : Except ε α} {f : α → Except ε β} {e : ε}
    (h : x >>= f = .error e) : x = .error e ∨ ∃ a, x = .ok a ∧ f a = .error e := by
  cases x with
  | error e' =>
    cases h
    exact .inl rfl
  | ok a => exact .inr ⟨a, rfl, h⟩

theorem toOption_eq_some {ε α : Type} {r : Except ε α} {x : α} :
    r.toOption = some x ↔ r = .ok x := by
  cases r <;> simp [Except.toOption]

/-- Go on if the condition holds, else fail with `e`. -/
def ensure {ε : Type} (c : Prop) [Decidable c] (e : ε) : Except ε Unit :=
  if c then .ok () else .error e

variable {u : Unit}

theorem ensure_eq_ok_iff {ε : Type} {c : Prop} [Decidable c] {e : ε} : ensure c e = .ok u ↔ c := by
  unfold ensure
  split <;> simp [*]

/-- Code over the state `σ`: a value or an error, and the state it leaves. -/
def Prog (σ ε α : Type) : Type := σ → Except ε α × σ

namespace Prog

variable {σ ε α β : Type}

instance : Monad (Prog σ ε) where
  pure a := fun s => (.ok a, s)
  bind p f := fun s =>
    match p s with
    | (.ok a, s') => f a s'
    | (.error e, s') => (.error e, s')

/-- Stop with an error; the state stays as it is. -/
def fail (e : ε) : Prog σ ε α := fun s => (.error e, s)

/-- Stop with `e` unless `c` holds. -/
def check (c : Prop) [Decidable c] (e : ε) : Prog σ ε Unit :=
  if c then pure () else fail e

/-- Lift an already computed result. -/
def lift (r : Except ε α) : Prog σ ε α := fun s => (r, s)

/-- The current state. -/
def get : Prog σ ε σ := fun s => (.ok s, s)

/-- Replace the state by a function of it. -/
def modify (f : σ → σ) : Prog σ ε Unit := fun s => (.ok (), f s)

@[simp] theorem pure_apply (a : α) (s : σ) : (pure a : Prog σ ε α) s = (.ok a, s) := rfl

@[simp] theorem fail_apply (e : ε) (s : σ) : (fail e : Prog σ ε α) s = (.error e, s) := rfl

theorem bind_apply (p : Prog σ ε α) (f : α → Prog σ ε β) (s : σ) :
    (p >>= f) s = match p s with
      | (.ok a, s') => f a s'
      | (.error e, s') => (.error e, s') := rfl

variable {f : α → Prog σ ε β} {p : Prog σ ε α} {s s' : σ} {a : α}

theorem bind_ok (h : p s = (.ok a, s')) : (p >>= f) s = f a s' := by
  rw [bind_apply, h]

variable {e : ε} {b : β}

theorem bind_error (h : p s = (.error e, s')) : (p >>= f) s = (.error e, s') := by
  rw [bind_apply, h]

theorem bind_eq_ok {s s'' : σ} (h : (p >>= f) s = (.ok b, s'')) :
    ∃ a s', p s = (.ok a, s') ∧ f a s' = (.ok b, s'') := by
  rw [bind_apply] at h
  rcases hp : p s with ⟨e | a, s'⟩
  · rw [hp] at h
    cases h
  · rw [hp] at h
    exact ⟨a, s', rfl, h⟩

variable {c : Prop}

theorem check_pos [Decidable c] (h : c) : check c e s = (.ok (), s) := by
  rw [check, if_pos h, pure_apply]

theorem check_neg [Decidable c] (h : ¬c) : check c e s = (.error e, s) := by
  rw [check, if_neg h, fail_apply]

theorem check_eq_ok [Decidable c] (h : check c e s = (.ok u, s')) : c ∧ s = s' := by
  by_cases hc : c
  · rw [check_pos hc] at h
    exact ⟨hc, (Prod.mk.inj h).2⟩
  · rw [check_neg hc] at h
    cases h

theorem check_bind_eq_ok [Decidable c] {f : Unit → Prog σ ε β}
    (h : (check c e >>= f) s = (.ok b, s')) : c ∧ f () s = (.ok b, s') := by
  obtain ⟨_, _, hcheck, hrest⟩ := bind_eq_ok h
  obtain ⟨hc, rfl⟩ := check_eq_ok hcheck
  exact ⟨hc, hrest⟩

/-! ## What every run keeps -/

/-- `Keeps R p s`: run from `s`, `p` ends in a state that `R` relates to `s`, with a value or an
error. -/
def Keeps (R : σ → σ → Prop) (p : Prog σ ε α) (s : σ) : Prop := R s (p s).2

section Keeps

variable {R : σ → σ → Prop} {p : Prog σ ε α} {f : α → Prog σ ε β} {s : σ}

theorem Keeps.pure (hrefl : ∀ s, R s s) (a : α) : Keeps R (Pure.pure a : Prog σ ε α) s := hrefl s

theorem Keeps.lift (hrefl : ∀ s, R s s) (r : Except ε α) : Keeps R (Prog.lift r) s := hrefl s

theorem Keeps.check (hrefl : ∀ s, R s s) (c : Prop) [Decidable c] (e : ε) :
    Keeps R (Prog.check c e : Prog σ ε Unit) s := by
  unfold Prog.check
  split
  · exact hrefl s
  · exact hrefl s

theorem Keeps.of_eq {r : Except ε α} (h : p s = (r, s')) (hp : Keeps R p s) : R s s' := by
  unfold Keeps at hp
  rwa [h] at hp

/-- The second half runs only from the states the first one can hand over. -/
theorem Keeps.bind (htrans : ∀ {a b c}, R a b → R b c → R a c) (hp : Keeps R p s)
    (hf : ∀ a s', p s = (.ok a, s') → Keeps R (f a) s') : Keeps R (p >>= f) s := by
  unfold Keeps at hp ⊢
  rw [bind_apply]
  rcases hps : p s with ⟨e | a, s'⟩
  · rw [hps] at hp
    exact hp
  · rw [hps] at hp
    exact htrans hp (hf a s' hps)

end Keeps

/-- `Ends R E s r`: the outcome `r` of code run from `s` has a state that `R` relates to `s`, and an
error in it satisfies `E`. -/
structure Ends (R : σ → σ → Prop) (E : ε → Prop) (s : σ) (r : Except ε α × σ) : Prop where
  keeps : R s r.2
  error : ∀ e, r.1 = .error e → E e

section Ends

variable {R : σ → σ → Prop} {E : ε → Prop} {p : Prog σ ε α} {f : α → Prog σ ε β} {s s' : σ}

theorem Ends.ok (h : R s s') : Ends R E s ((.ok a, s') : Except ε α × σ) :=
  ⟨h, fun _ he => by cases he⟩

theorem Ends.failed (h : R s s') (hE : E e) : Ends R E s ((.error e, s') : Except ε α × σ) :=
  ⟨h, fun _ he => by cases he; exact hE⟩

section

variable (htrans : ∀ {a b c}, R a b → R b c → R a c)

include htrans

theorem Ends.before {r : Except ε α × σ} (h : Ends R E s' r) (hR : R s s') :
    Ends R E s r := ⟨htrans hR h.keeps, h.error⟩

theorem Ends.bind (hp : Ends R E s (p s)) (hf : ∀ a s', p s = (.ok a, s') → Ends R E s' (f a s')) :
    Ends R E s ((p >>= f) s) := by
  rcases hps : p s with ⟨e | a, s'⟩ <;> rw [hps] at hp
  · rw [bind_error hps]
    exact .failed hp.keeps (hp.error e rfl)
  · rw [bind_ok hps]
    have hrest := hf a s' hps
    exact ⟨htrans hp.keeps hrest.keeps, hrest.error⟩

end

end Ends

/-! ## Two runs -/

/-- Two outcomes agree: related values, or the same error. -/
def Agree (V : α → β → Prop) : Except ε α → Except ε β → Prop
  | .ok a, .ok b => V a b
  | .error e, .error e' => e = e'
  | _, _ => False

theorem Agree.map_eq {f : α → β} {x : Except ε α} {y : Except ε β}
    (h : Agree (fun a b => f a = b) x y) : x.map f = y := by
  cases x with
  | error e =>
    cases y with
    | error e' => exact congrArg Except.error h
    | ok b => exact h.elim
  | ok a =>
    cases y with
    | error e' => exact h.elim
    | ok b => exact congrArg Except.ok h

/-- `Related S V p q s t`: run from `s` and from `t`, the two programs end in related states, with
outcomes that agree. -/
def Related {τ : Type} (S : σ → τ → Prop) (V : α → β → Prop) (p : Prog σ ε α) (q : Prog τ ε β)
    (s : σ) (t : τ) : Prop :=
  S (p s).2 (q t).2 ∧ Agree V (p s).1 (q t).1

section Related

variable {τ γ δ : Type} {S S₁ : σ → τ → Prop} {V : α → β → Prop} {W : γ → δ → Prop}
  {p : Prog σ ε α} {q : Prog τ ε β} {f : α → Prog σ ε γ} {g : β → Prog τ ε δ} {s : σ} {t : τ}

theorem Related.pure (hS : S s t) (hV : V a b) :
    Related S V (Pure.pure a : Prog σ ε α) (Pure.pure b : Prog τ ε β) s t := ⟨hS, hV⟩

theorem Related.fail (e : ε) (hS : S s t) :
    Related S V (Prog.fail e : Prog σ ε α) (Prog.fail e : Prog τ ε β) s t := ⟨hS, rfl⟩

theorem Related.get {f : σ → Prog σ ε γ} {g : τ → Prog τ ε δ} (h : Related S W (f s) (g t) s t) :
    Related S W (Prog.get >>= f) (Prog.get >>= g) s t := h

theorem Related.modify {m : σ → σ} {m' : τ → τ} {f : Unit → Prog σ ε γ} {g : Unit → Prog τ ε δ}
    (h : Related S W (f ()) (g ()) (m s) (m' t)) :
    Related S W (Prog.modify m >>= f) (Prog.modify m' >>= g) s t := h

/-- The second halves run only from the states the first ones can hand over. -/
theorem Related.bind (hp : Related S₁ V p q s t) (himp : ∀ s' t', S₁ s' t' → S s' t')
    (hf : ∀ a b s' t', p s = (.ok a, s') → q t = (.ok b, t') → V a b → S₁ s' t' →
      Related S W (f a) (g b) s' t') : Related S W (p >>= f) (q >>= g) s t := by
  obtain ⟨hS, hV⟩ := hp
  unfold Related
  rw [bind_apply, bind_apply]
  rcases hps : p s with ⟨e | a, s'⟩ <;> rcases hqt : q t with ⟨e' | b, t'⟩ <;>
    rw [hps, hqt] at hS hV
  · exact ⟨himp _ _ hS, hV⟩
  · exact hV.elim
  · exact hV.elim
  · exact hf a b s' t' hps hqt hV hS

theorem Related.imp {V' : α → β → Prop} (h : Related S₁ V p q s t)
    (himp : ∀ s' t', S₁ s' t' → S s' t') (hV : ∀ a b, V a b → V' a b) : Related S V' p q s t := by
  obtain ⟨hS, hagree⟩ := h
  refine ⟨himp _ _ hS, ?_⟩
  unfold Agree at hagree ⊢
  split at hagree
  · exact hV _ _ hagree
  · exact hagree
  · exact hagree.elim

end Related

/-! ## Visiting a list -/

section Visit

variable {visit : α → Prog σ ε PUnit} {xs ys : List α} {s s₁ s' : σ}

theorem forM_append_ok (hxs : xs.forM visit s = (.ok ⟨⟩, s₁))
    (hys : ys.forM visit s₁ = (.ok ⟨⟩, s')) :
    (xs ++ ys).forM visit s = (.ok ⟨⟩, s') := by
  induction xs generalizing s with
  | nil =>
    cases hxs
    exact hys
  | cons x xs ih =>
    obtain ⟨_, s₂, hx, hrest⟩ := bind_eq_ok hxs
    exact (bind_ok hx).trans (ih hrest)

/-- What every visit that goes through keeps, as a property of the elements visited so far. -/
theorem forM_invariant (I : List α → σ → Prop)
    (hstep : ∀ done x s s', done ++ [x] <+: xs → I done s → visit x s = (.ok ⟨⟩, s') →
      I (done ++ [x]) s') (h : xs.forM visit s = (.ok ⟨⟩, s')) (hstart : I [] s) : I xs s' := by
  -- the elements visited so far and those still to visit
  suffices hrest : ∀ rest done s, done ++ rest = xs → I done s →
      rest.forM visit s = (.ok ⟨⟩, s') → I xs s' from hrest xs [] s rfl hstart h
  intro rest
  induction rest with
  | nil =>
    intro done s hdone hI hrun
    cases hrun
    rw [List.append_nil] at hdone
    exact hdone ▸ hI
  | cons x rest ih =>
    intro done s hdone hI hrun
    obtain ⟨_, s₁, hx, hrun⟩ := bind_eq_ok hrun
    have hsplit : done ++ [x] ++ rest = xs := by rw [← hdone, List.append_assoc]; rfl
    exact ih (done ++ [x]) s₁ hsplit (hstep done x s s₁ ⟨rest, hsplit⟩ hI hx) hrun

end Visit

end Prog

end BetterMQ
