import Mathlib.Data.List.Basic

/-!
# Runs of a labelled machine

A machine is a partial step function `step : σ → α → Option σ`: the label names the
operation (or the scheduler's choice), `none` means that it is not enabled. `Run step good`
is the relation "a run over these labels leads from here to there, and every step met the
condition `good` in the state before it".

Every safety result of the development is one of three shapes, each proved here once:

* **`Run.invariant`** — what holds at the start and is kept by every good step holds at the end;
* **`Run.related`** — a reflexive and transitive relation that every good step respects from
  an invariant state relates the start to the end;
* **`Run.always_iff`** — when it is known exactly which steps keep an invariant, so is which runs
  do. -/

namespace BetterMQ

variable {σ α : Type*} {step : σ → α → Option σ} {good : σ → α → Prop}

/-- `Run step good s as s'`: from `s` the labels `as` lead to `s'`, each step enabled and each
meeting `good` in the state it starts from. -/
inductive Run (step : σ → α → Option σ) (good : σ → α → Prop) : σ → List α → σ → Prop where
  | nil (s : σ) : Run step good s [] s
  | cons {s s₁ s₂ : σ} {a : α} {as : List α} (hgood : good s a) (hstep : step s a = some s₁)
      (rest : Run step good s₁ as s₂) : Run step good s (a :: as) s₂

/-- The runs without a condition. -/
abbrev AnyRun (step : σ → α → Option σ) := Run step fun _ _ => True

variable {as bs : List α} {s s₁ s₂ : σ}

theorem Run.append (h₁ : Run step good s as s₁) (h₂ : Run step good s₁ bs s₂) :
    Run step good s (as ++ bs) s₂ := by
  induction h₁ with
  | nil _ => exact h₂
  | cons hgood hstep _ ih => exact .cons hgood hstep (ih h₂)

theorem Run.split (h : Run step good s (as ++ bs) s₂) :
    ∃ s₁, Run step good s as s₁ ∧ Run step good s₁ bs s₂ := by
  induction as generalizing s with
  | nil => exact ⟨s, .nil s, h⟩
  | cons a as ih =>
    cases h with
    | cons hgood hstep rest =>
      obtain ⟨s₁, hleft, hright⟩ := ih rest
      exact ⟨s₁, .cons hgood hstep hleft, hright⟩

variable {good' : σ → α → Prop}

theorem Run.unique (h₁ : Run step good s as s₁) (h₂ : Run step good' s as s₂) : s₁ = s₂ := by
  induction h₁ with
  | nil _ =>
    cases h₂
    rfl
  | cons _ hstep _ ih =>
    cases h₂ with
    | cons _ hstep' rest' =>
      rw [hstep] at hstep'
      cases hstep'
      exact ih rest'

theorem Run.snoc {a : α} (h : Run step good s as s₁) (hgood : good s₁ a)
    (hstep : step s₁ a = some s₂) : Run step good s (as ++ [a]) s₂ :=
  h.append (.cons hgood hstep (.nil s₂))

theorem Run.between {s t t' s' : σ} {cs : List α} (h : Run step good s (as ++ (bs ++ cs)) s')
    (hleft : Run step good' s as t) (hright : Run step good' s (as ++ bs) t') :
    Run step good t bs t' := by
  obtain ⟨u, hu, hrest⟩ := h.split
  obtain ⟨v, hv, -⟩ := hrest.split
  cases hu.unique hleft
  cases (hu.append hv).unique hright
  exact hv

variable {s s' : σ}

theorem Run.mono (himp : ∀ s a, good s a → good' s a) (h : Run step good s as s') :
    Run step good' s as s' := by
  induction h with
  | nil s => exact .nil s
  | cons hgood hstep _ ih => exact .cons (himp _ _ hgood) hstep ih

section

variable (Inv : σ → Prop)

include Inv

section

variable (hkeep : ∀ s a s', Inv s → good s a → step s a = some s' → Inv s')

include hkeep

/-- **Invariant rule.** -/
theorem Run.invariant (h : Run step good s as s') (hinv : Inv s) : Inv s' := by
  induction h with
  | nil _ => exact hinv
  | cons hgood hstep _ ih => exact ih (hkeep _ _ _ hinv hgood hstep)

/-- Runs may be read under another condition that an invariant makes follow from the first. -/
theorem Run.mono_of_invariant (himp : ∀ s a, Inv s → good s a → good' s a)
    (h : Run step good s as s') (hinv : Inv s) : Run step good' s as s' := by
  induction h with
  | nil s => exact .nil s
  | cons hgood hstep _ ih =>
    exact .cons (himp _ _ hinv hgood) hstep (ih (hkeep _ _ _ hinv hgood hstep))

end

/-- **Relation rule.** A preorder that every good step from an invariant state respects relates
the two ends of a run. -/
theorem Run.related (R : σ → σ → Prop) (hrefl : ∀ s, R s s)
    (htrans : ∀ {a b c}, R a b → R b c → R a c)
    (hkeep : ∀ s a s', Inv s → good s a → step s a = some s' → Inv s')
    (hrel : ∀ s a s', Inv s → good s a → step s a = some s' → R s s') (h : Run step good s as s')
    (hinv : Inv s) : R s s' := by
  induction h with
  | nil s => exact hrefl s
  | cons hgood hstep _ ih =>
    exact htrans (hrel _ _ _ hinv hgood hstep) (ih (hkeep _ _ _ hinv hgood hstep))

/-- **Exact invariant rule.** When a step from an invariant state leads to one exactly if it is
`ok`, a run stays within the invariant exactly if it starts there and all its steps are `ok`. -/
theorem Run.always_iff (ok : σ → α → Prop)
    (hstep : ∀ s a s', Inv s → step s a = some s' → (Inv s' ↔ ok s a)) (h : Run step good s as s') :
    (∀ pre post t, as = pre ++ post → Run step good s pre t → Inv t) ↔
      Inv s ∧ Run step ok s as s' := by
  induction h with
  | nil s =>
    constructor
    · intro hall
      exact ⟨hall [] [] s rfl (.nil s), .nil s⟩
    · rintro ⟨hinv, -⟩ pre post t heq hrun
      obtain ⟨rfl, -⟩ := List.append_eq_nil_iff.mp heq.symm
      cases hrun
      exact hinv
  | @cons s s₁ s₂ a as hgood hfirst rest ih =>
    constructor
    · intro hall
      have hinv : Inv s := hall [] (a :: as) s rfl (.nil s)
      have hinv₁ : Inv s₁ := hall [a] as s₁ rfl (.cons hgood hfirst (.nil s₁))
      have hrest : Run step ok s₁ as s₂ := by
        refine (ih.mp ?_).2
        intro pre post t heq hrun
        exact hall (a :: pre) post t (by rw [heq]; rfl) (.cons hgood hfirst hrun)
      exact ⟨hinv, .cons ((hstep s a s₁ hinv hfirst).mp hinv₁) hfirst hrest⟩
    · rintro ⟨hinv, hok⟩ pre post t heq hrun
      cases hok with
      | cons hokfirst hfirst' hokrest =>
        rw [hfirst] at hfirst'
        cases hfirst'
        have hinv₁ : Inv s₁ := (hstep s a s₁ hinv hfirst).mpr hokfirst
        cases hrun with
        | nil => exact hinv
        | cons hgood' hfirst' hrun' =>
          cases heq
          rw [hfirst] at hfirst'
          cases hfirst'
          exact ih.mpr ⟨hinv₁, hokrest⟩ _ post t rfl hrun'

end

/-- The state a list of labels leads to, when every step is enabled and meets the condition. -/
def runAll (step : σ → α → Option σ) (good : σ → α → Prop) [∀ s a, Decidable (good s a)] :
    σ → List α → Option σ
  | s, [] => some s
  | s, a :: as => if good s a then (step s a).bind fun s' => runAll step good s' as else none

theorem Run.of_runAll [∀ s a, Decidable (good s a)] (h : runAll step good s as = some s') :
    Run step good s as s' := by
  induction as generalizing s with
  | nil =>
    cases h
    exact .nil _
  | cons a as ih =>
    rw [runAll] at h
    split at h
    · next hgood =>
      obtain ⟨s₁, hstep, hrest⟩ := Option.bind_eq_some_iff.mp h
      exact .cons hgood hstep (ih hrest)
    · cases h

theorem runAll_of_run [∀ s a, Decidable (good s a)] (h : Run step good s as s') :
    runAll step good s as = some s' := by
  induction h with
  | nil _ => rfl
  | cons hgood hstep _ ih => rw [runAll, if_pos hgood, hstep, Option.bind_some, ih]

/-! ## Runs found by computation

A run over given labels, if there is one, ends in one state, which `runAll` computes; a statement
about that state is decided by evaluation. -/

/-- At most one value satisfies `A`, and it is computed. -/
class Computed {β : Type*} (A : β → Prop) where
  value : Option β
  mem_value : ∀ x, x ∈ value ↔ A x

section Decide

variable {β γ δ ε ζ : Type*}

instance [∀ s a, Decidable (good s a)] {s : σ} {as : List α} : Computed (Run step good s as) :=
  ⟨runAll step good s as, fun _ => ⟨Run.of_runAll, runAll_of_run⟩⟩

instance {o : Option β} : Computed fun x => o = some x := ⟨o, fun _ => Iff.rfl⟩

instance {e : Except ε β} : Computed fun x => e = .ok x :=
  ⟨e.toOption, fun _ => by cases e <;> simp [Except.toOption]⟩

instance {e : Except ε β} : Computed fun x => e = .error x :=
  ⟨e.casesOn some fun _ => none, fun _ => by cases e <;> simp⟩

variable {A : β → Prop} [Computed A]

instance Computed.decExists : Decidable (∃ x, A x) :=
  decidable_of_iff (Computed.value A).isSome
    (Option.isSome_iff_exists.trans (exists_congr Computed.mem_value))

instance Computed.decAnd {P : β → Prop} [DecidablePred P] : Decidable (∃ x, A x ∧ P x) :=
  decidable_of_iff (∃ x ∈ Computed.value A, P x)
    (exists_congr fun x => and_congr_left fun _ => Computed.mem_value x)

instance Computed.decAnd₂ {P : β → γ → Prop} [∀ x, Decidable (∃ y, P x y)] :
    Decidable (∃ x y, A x ∧ P x y) :=
  decidable_of_iff (∃ x, A x ∧ ∃ y, P x y) (by simp only [exists_and_left])

instance Computed.decAnd₃ {P : β → γ → δ → Prop} [∀ x, Decidable (∃ y z, P x y z)] :
    Decidable (∃ x y z, A x ∧ P x y z) :=
  decidable_of_iff (∃ x, A x ∧ ∃ y z, P x y z) (by simp only [exists_and_left])

instance Computed.decAnd₄ {P : β → γ → δ → ε → Prop} [∀ x, Decidable (∃ y z u, P x y z u)] :
    Decidable (∃ x y z u, A x ∧ P x y z u) :=
  decidable_of_iff (∃ x, A x ∧ ∃ y z u, P x y z u) (by simp only [exists_and_left])

instance Computed.decAnd₅ {P : β → γ → δ → ε → ζ → Prop} [∀ x, Decidable (∃ y z u v, P x y z u v)] :
    Decidable (∃ x y z u v, A x ∧ P x y z u v) :=
  decidable_of_iff (∃ x, A x ∧ ∃ y z u v, P x y z u v) (by simp only [exists_and_left])

instance Computed.decError {r : Except ε β × γ} {P : ε → γ → Prop} [∀ x y, Decidable (P x y)] :
    Decidable (∃ x y, r = (.error x, y) ∧ P x y) :=
  decidable_of_iff (∃ x, r.1 = .error x ∧ P x r.2) (by
    obtain ⟨e | a, y⟩ := r <;> simp)

-- a condition on what is determined already
variable {c : Prop} [Decidable c]

instance Computed.decPast {P : β → Prop} [Decidable (∃ x, P x)] : Decidable (∃ x, c ∧ P x) :=
  decidable_of_iff (c ∧ ∃ x, P x) exists_and_left.symm

instance Computed.decPast₂ {P : β → γ → Prop} [Decidable (∃ x y, P x y)] :
    Decidable (∃ x y, c ∧ P x y) :=
  decidable_of_iff (c ∧ ∃ x y, P x y) (by simp only [exists_and_left])

instance Computed.decPast₃ {P : β → γ → δ → Prop} [Decidable (∃ x y z, P x y z)] :
    Decidable (∃ x y z, c ∧ P x y z) :=
  decidable_of_iff (c ∧ ∃ x y z, P x y z) (by simp only [exists_and_left])

end Decide

/-! ## What follows from what is computed -/

section Exists

variable {β γ : Type*}

theorem exists_and_of {A B : β → Prop} (h : ∃ x, A x) (hB : ∀ x, A x → B x) : ∃ x, A x ∧ B x :=
  h.imp fun x hA => ⟨hA, hB x hA⟩

theorem exists_and₂_of {A P B : β → Prop} (h : ∃ x, A x ∧ P x) (hB : ∀ x, A x → P x → B x) :
    ∃ x, A x ∧ P x ∧ B x :=
  h.imp fun x ⟨hA, hP⟩ => ⟨hA, hP, hB x hA hP⟩

theorem exists₂_and₂_of {A P B : β → γ → Prop} (h : ∃ x y, A x y ∧ P x y)
    (hB : ∀ x y, A x y → P x y → B x y) : ∃ x y, A x y ∧ P x y ∧ B x y :=
  h.imp fun x hx => exists_and₂_of hx (hB x)

end Exists

theorem and_of {p r : Prop} (f : p → r) (h : p) : p ∧ r := ⟨h, f h⟩

theorem and_imp_of {p q r : Prop} (f : p → q → r) (h : p ∧ q) : p ∧ r := ⟨h.1, f h.1 h.2⟩

end BetterMQ
