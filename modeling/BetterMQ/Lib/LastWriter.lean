import Mathlib.Data.Set.Insert
import Mathlib.Logic.Function.Basic
import Mathlib.Order.MinMax
import Mathlib.Tactic.Set

/-!
# Last-writer-wins tables with tombstones

Replicas keep a set of stamped rows. Rows of one slot replace each other, the later stamp wins and
of equal stamps the later arrival. A row arrives by itself and is put at once, or is offered with
others and some tombstones, and is put unless its tombstone is at least as late. A delete removes
the row and leaves a tombstone with a reading of the replica's own clock.

Nothing here is commutative by itself. What replicas agree on is settled slot by slot:

* **`Keys.Settled`** — either one row of the slot beats all others and nothing deletes it, or the
  rows of the slot are only ever offered and each of them is deleted;
* **`Keys.converges`** — if every slot is settled, two replicas that applied the same changes, in
  whatever order and however often, hold the same rows.
-/

namespace BetterMQ.LastWriter

open Function List

/-- How rows are told apart. -/
structure Keys (R K D I T : Type) where
  /-- Rows of one slot replace each other. -/
  slot : R → K
  /-- The delete that removes the row. -/
  victim : R → D
  /-- What the tombstone of a delete names. -/
  mark : D → I
  stamp : R → T

structure Replica (R I T : Type) where
  rows : Set R
  gone : I → Option T

inductive Change (R D I T : Type) where
  | put (row : R)
  | offer (rows : List R) (gone : List (I × T))
  | remove (target : D)

namespace Keys

variable {R K D I T : Type} [LinearOrder T] {keys : Keys R K D I T}

/-! ## Single puts -/

def put (keys : Keys R K D I T) (rows : Set R) (v : R) : Set R :=
  {r | (r ∈ rows ∧ (keys.slot r ≠ keys.slot v ∨ keys.stamp v < keys.stamp r)) ∨
    (r = v ∧ ∀ old ∈ rows, keys.slot old = keys.slot v → keys.stamp old ≤ keys.stamp v)}

section Put

variable {rows : Set R} {r v : R}

theorem mem_or_eq_of_mem_put (h : r ∈ keys.put rows v) : r ∈ rows ∨ r = v :=
  h.imp And.left And.left

theorem mem_put_self
    (h : ∀ old ∈ rows, keys.slot old = keys.slot v → keys.stamp old ≤ keys.stamp v) :
    v ∈ keys.put rows v := .inr ⟨rfl, h⟩

theorem mem_put_of_mem (h : r ∈ rows)
    (hstays : keys.slot r ≠ keys.slot v ∨ keys.stamp v < keys.stamp r) : r ∈ keys.put rows v :=
  .inl ⟨h, hstays⟩

/-- At most one row in each slot. -/
def OnePerSlot (keys : Keys R K D I T) (rows : Set R) : Prop :=
  ∀ r ∈ rows, ∀ r' ∈ rows, keys.slot r = keys.slot r' → r = r'

theorem OnePerSlot.put (h : keys.OnePerSlot rows) (v : R) : keys.OnePerSlot (keys.put rows v) := by
  -- a row that stays beside `v` would have to be both later and not later
  have hmixed : ∀ r, r ∈ rows ∧ (keys.slot r ≠ keys.slot v ∨ keys.stamp v < keys.stamp r) →
      (∀ old ∈ rows, keys.slot old = keys.slot v → keys.stamp old ≤ keys.stamp v) →
      keys.slot r ≠ keys.slot v := by
    rintro r ⟨hr, hstays⟩ hwins hslot
    exact absurd (hwins r hr hslot) (not_le.mpr (hstays.resolve_left fun hne => hne hslot))
  rintro r hr r' hr' hslot
  rcases hr with hold | ⟨rfl, hwins⟩
  · rcases hr' with hold' | ⟨rfl, hwins'⟩
    · exact h r hold.1 r' hold'.1 hslot
    · exact absurd hslot (hmixed r hold hwins')
  · rcases hr' with hold' | ⟨rfl, -⟩
    · exact absurd hslot.symm (hmixed r' hold' hwins)
    · rfl

end Put

/-! ## Two kinds of rows -/

section Sum

variable {R₁ R₂ K₁ K₂ D₁ D₂ : Type} (first : Keys R₁ K₁ D₁ I T) (second : Keys R₂ K₂ D₂ I T)

/-- Two tables that share their tombstones. -/
def sum : Keys (R₁ ⊕ R₂) (K₁ ⊕ K₂) (D₁ ⊕ D₂) I T where
  slot := Sum.map first.slot second.slot
  victim := Sum.map first.victim second.victim
  mark := Sum.elim first.mark second.mark
  stamp := Sum.elim first.stamp second.stamp

def both (rows₁ : Set R₁) (rows₂ : Set R₂) : Set (R₁ ⊕ R₂) :=
  {r | r.elim (· ∈ rows₁) (· ∈ rows₂)}

variable {first second} {rows₁ : Set R₁} {rows₂ : Set R₂}

theorem sum_put_inl (v : R₁) :
    (sum first second).put (both rows₁ rows₂) (.inl v) = both (first.put rows₁ v) rows₂ := by
  ext r
  rcases r with r | r <;> simp [put, both, sum, Sum.forall]

theorem sum_put_inr (v : R₂) :
    (sum first second).put (both rows₁ rows₂) (.inr v) = both rows₁ (second.put rows₂ v) := by
  ext r
  rcases r with r | r <;> simp [put, both, sum, Sum.forall]

omit [LinearOrder T] in
theorem sum_remove_inl (target : D₁) :
    {r ∈ both rows₁ rows₂ | (sum first second).victim r ≠ .inl target} =
      both {r ∈ rows₁ | first.victim r ≠ target} rows₂ := by
  ext r
  rcases r with r | r <;> simp [both, sum]

omit [LinearOrder T] in
theorem sum_remove_inr (target : D₂) :
    {r ∈ both rows₁ rows₂ | (sum first second).victim r ≠ .inr target} =
      both rows₁ {r ∈ rows₂ | second.victim r ≠ target} := by
  ext r
  rcases r with r | r <;> simp [both, sum]

end Sum

/-! ## The replica -/

section Replica

variable (keys)

/-- The tombstone that names the row. -/
def ident (r : R) : I := keys.mark (keys.victim r)

def empty : Replica R I T := ⟨∅, fun _ => none⟩

/-- The row is later than its tombstone, if there is one. -/
def Alive (gone : I → Option T) (r : R) : Prop := ∀ d ∈ gone (keys.ident r), d < keys.stamp r

open Classical in
noncomputable def offerRows (gone : I → Option T) (rows : Set R) (vs : List R) : Set R :=
  vs.foldl (fun rows v => if keys.Alive gone v then keys.put rows v else rows) rows

variable [DecidableEq I]

/-- The later of two tombstones. -/
def later : Option T → T → T
  | some d, e => max d e
  | none, e => e

def raise (gone : I → Option T) (t : I × T) : I → Option T :=
  Function.update gone t.1 (some (later (gone t.1) t.2))

def merge (gone : I → Option T) (tombstones : List (I × T)) : I → Option T :=
  tombstones.foldl raise gone

/-- One change, applied at the clock reading `now`. -/
noncomputable def step (s : Replica R I T) (now : T) : Change R D I T → Replica R I T
  | .put v => { s with rows := keys.put s.rows v }
  | .offer vs tombstones =>
    let gone := merge s.gone tombstones
    ⟨keys.offerRows gone s.rows vs, gone⟩
  | .remove target =>
    ⟨{r ∈ s.rows | keys.victim r ≠ target}, Function.update s.gone (keys.mark target) (some now)⟩

/-- The changes applied one after another, each with its clock reading. -/
noncomputable def run (s : Replica R I T) (es : List (Change R D I T × T)) : Replica R I T :=
  es.foldl (fun s e => keys.step s e.2 e.1) s

end Replica

/-! ## Tombstones -/

section Merge

variable [DecidableEq I] {gone : I → Option T} {tombstones : List (I × T)} {i : I} {d : T}

omit [DecidableEq I] in
theorem le_later (o : Option T) (e : T) : e ≤ later o e ∧ ∀ d ∈ o, d ≤ later o e := by
  cases o with
  | none => exact ⟨le_rfl, fun d hd => by cases hd⟩
  | some d =>
    refine ⟨le_max_right d e, fun d' hd' => ?_⟩
    cases hd'
    exact le_max_left d e

theorem le_raise_of_gone (t : I × T) (h : gone i = some d) :
    ∃ e, raise gone t i = some e ∧ d ≤ e := by
  by_cases hi : i = t.1
  · subst hi
    exact ⟨_, update_self .., (le_later (gone t.1) t.2).2 d h⟩
  · exact ⟨d, (update_of_ne hi ..).trans h, le_rfl⟩

theorem raise_source {t : I × T} (h : raise gone t i = some d) : gone i = some d ∨ (i, d) = t := by
  by_cases hi : i = t.1
  · subst hi
    rw [raise, update_self, Option.some.injEq] at h
    cases hold : gone t.1 with
    | none =>
      rw [hold] at h
      exact .inr (Prod.ext rfl h.symm)
    | some e =>
      rw [hold] at h
      rcases max_choice e t.2 with hmax | hmax
      · exact .inl (congrArg some (hmax.symm.trans h))
      · exact .inr (Prod.ext rfl (h.symm.trans hmax))
  · rw [raise, update_of_ne hi] at h
    exact .inl h

theorem le_merge_of_gone (h : gone i = some d) : ∃ e, merge gone tombstones i = some e ∧ d ≤ e := by
  induction tombstones generalizing gone d with
  | nil => exact ⟨d, h, le_rfl⟩
  | cons t tombstones ih =>
    obtain ⟨e, he, hde⟩ := le_raise_of_gone t h
    obtain ⟨e', he', hee'⟩ := ih he
    exact ⟨e', he', hde.trans hee'⟩

theorem le_merge_of_mem (h : (i, d) ∈ tombstones) :
    ∃ e, merge gone tombstones i = some e ∧ d ≤ e := by
  induction tombstones generalizing gone with
  | nil => cases h
  | cons t tombstones ih =>
    rcases mem_cons.mp h with rfl | hrest
    · have hraised : raise gone (i, d) i = some (later (gone i) d) := update_self ..
      obtain ⟨e, he, hde⟩ := le_merge_of_gone hraised
      exact ⟨e, he, (le_later (gone i) d).1.trans hde⟩
    · exact ih hrest

theorem merge_source (h : merge gone tombstones i = some d) :
    gone i = some d ∨ (i, d) ∈ tombstones := by
  induction tombstones generalizing gone with
  | nil => exact .inl h
  | cons t tombstones ih =>
    rcases ih h with hraised | hmem
    · rcases raise_source hraised with hold | rfl
      · exact .inl hold
      · exact .inr (.head _)
    · exact .inr (.tail _ hmem)

end Merge

/-! ## What is settled -/

section Settled

variable (keys)

/-- No tombstone of the list is as late as the row. -/
def Fresh (tombstones : List (I × T)) (r : R) : Prop :=
  ∀ d, (keys.ident r, d) ∈ tombstones → d < keys.stamp r

/-- The change can bring the row. -/
def Carries (r : R) : Change R D I T → Prop
  | .put v => r = v
  | .offer vs tombstones => r ∈ vs ∧ keys.Fresh tombstones r
  | .remove _ => False

def Carried (S : Set (Change R D I T)) (r : R) : Prop := ∃ ch ∈ S, keys.Carries r ch

/-- The row beats every other one of its slot, and nothing exchanged deletes it or holds it back. -/
structure Winner (S : Set (Change R D I T)) (best : R) : Prop where
  carried : keys.Carried S best
  beats : ∀ r, keys.Carried S r → keys.slot r = keys.slot best →
    keys.stamp r < keys.stamp best ∨ r = best
  kept : ∀ target, .remove target ∈ S → keys.mark target ≠ keys.ident best
  fresh : ∀ vs tombstones, .offer vs tombstones ∈ S → keys.Fresh tombstones best

section

variable (S : Set (Change R D I T))

/-- Every row of the slot is only offered, and deleted. -/
def Discarded (k : K) : Prop :=
  ∀ r, keys.Carried S r → keys.slot r = k → .put r ∉ S ∧ .remove (keys.victim r) ∈ S

def Settled (k : K) : Prop :=
  (∃ best, keys.slot best = k ∧ keys.Winner S best) ∨ keys.Discarded S k

/-- A delete is applied no earlier, on the replica's clock, than the rows it names were stamped. -/
def InTime (now : T) : Change R D I T → Prop
  | .remove target => ∀ r, keys.Carried S r → keys.ident r = keys.mark target → keys.stamp r ≤ now
  | _ => True

end

/-! ## The invariant of a replica -/

/-- The rows of a replica that has applied the changes `done` of `S`. -/
structure Sound (S done : Set (Change R D I T)) (rows : Set R) : Prop where
  carried : ∀ r ∈ rows, keys.Carried S r
  slots : keys.OnePerSlot rows
  removed : ∀ r ∈ rows, .put r ∉ S → .remove (keys.victim r) ∉ done

/-- Every tombstone was exchanged, or left by an exchanged delete. -/
def Sourced (S : Set (Change R D I T)) (gone : I → Option T) : Prop :=
  ∀ i d, gone i = some d → (∃ target, .remove target ∈ S ∧ keys.mark target = i) ∨
    ∃ vs tombstones, .offer vs tombstones ∈ S ∧ (i, d) ∈ tombstones

structure Inv (S done : Set (Change R D I T)) (s : Replica R I T) : Prop where
  sound : keys.Sound S done s.rows
  sources : keys.Sourced S s.gone
  marked : ∀ r, keys.Carried S r → ∀ target, .remove target ∈ done →
    keys.mark target = keys.ident r → ∃ d, s.gone (keys.ident r) = some d ∧ keys.stamp r ≤ d
  won : ∀ best, keys.Winner S best → ∀ ch ∈ done, keys.Carries best ch → best ∈ s.rows

end Settled

variable {S done : Set (Change R D I T)} {s : Replica R I T} {rows : Set R} {best v : R}
  {gone : I → Option T} {vs : List R}

theorem inv_empty (S : Set (Change R D I T)) : keys.Inv S ∅ (empty : Replica R I T) where
  sound := ⟨fun r hr => hr.elim, fun r hr => hr.elim, fun r hr => hr.elim⟩
  sources := fun i d h => by cases h
  marked := fun r _ target h => h.elim
  won := fun best _ ch h => h.elim

theorem Sound.put (h : keys.Sound S done rows) (hv : keys.Carried S v)
    (hnew : .put v ∉ S → .remove (keys.victim v) ∉ done) :
    keys.Sound S done (keys.put rows v) where
  carried := by
    intro r hr
    rcases mem_or_eq_of_mem_put hr with hold | rfl
    · exact h.carried r hold
    · exact hv
  slots := h.slots.put v
  removed := by
    intro r hr
    rcases mem_or_eq_of_mem_put hr with hold | rfl
    · exact h.removed r hold
    · exact hnew

theorem Winner.mem_put (hbest : keys.Winner S best) (hrows : ∀ r ∈ rows, keys.Carried S r)
    (hv : keys.Carried S v) (h : best ∈ rows ∨ best = v) : best ∈ keys.put rows v := by
  by_cases heq : best = v
  · subst heq
    refine mem_put_self fun old hold hslot => ?_
    rcases hbest.beats old (hrows old hold) hslot with hlt | rfl
    · exact hlt.le
    · exact le_rfl
  · refine mem_put_of_mem (h.resolve_right heq) ?_
    by_cases hslot : keys.slot best = keys.slot v
    · exact .inr ((hbest.beats v hv hslot.symm).resolve_right (Ne.symm heq))
    · exact .inl hslot

theorem offerRows_cons (gone : I → Option T) (rows : Set R) (v : R) (vs : List R) :
    keys.offerRows gone rows (v :: vs)
      = keys.offerRows gone (keys.offerRows gone rows [v]) vs := rfl

theorem offerRows_append (gone : I → Option T) (rows : Set R) (vs ws : List R) :
    keys.offerRows gone rows (vs ++ ws) = keys.offerRows gone (keys.offerRows gone rows vs) ws :=
  foldl_append

theorem offerRows_induction (P : Set R → Prop)
    (hput : ∀ v ∈ vs, keys.Alive gone v → ∀ rows, P rows → P (keys.put rows v)) (h : P rows) :
    P (keys.offerRows gone rows vs) := by
  induction vs generalizing rows with
  | nil => exact h
  | cons v vs ih =>
    rw [offerRows_cons]
    refine ih (fun v' hv' => hput v' (.tail _ hv')) ?_
    unfold offerRows
    rw [foldl_cons]
    split
    · next halive => exact hput v (.head _) halive rows h
    · exact h

theorem Sound.offerRows (h : keys.Sound S done rows) (hvs : ∀ v ∈ vs, keys.Alive gone v →
      keys.Carried S v ∧ (.put v ∉ S → .remove (keys.victim v) ∉ done)) :
    keys.Sound S done (keys.offerRows gone rows vs) :=
  offerRows_induction (keys.Sound S done)
    (fun v hv halive _ hrows => hrows.put (hvs v hv halive).1 (hvs v hv halive).2) h

theorem Winner.mem_offerRows (hbest : keys.Winner S best) (halive : keys.Alive gone best)
    (hrows : ∀ r ∈ rows, keys.Carried S r) (hvs : ∀ v ∈ vs, keys.Alive gone v → keys.Carried S v)
    (h : best ∈ rows ∨ best ∈ vs) : best ∈ keys.offerRows gone rows vs := by
  induction vs generalizing rows with
  | nil => exact h.resolve_right not_mem_nil
  | cons v vs ih =>
    have hrest : ∀ v' ∈ vs, keys.Alive gone v' → keys.Carried S v' :=
      fun v' hv' => hvs v' (.tail _ hv')
    unfold offerRows
    rw [foldl_cons]
    by_cases hv : keys.Alive gone v
    · rw [if_pos hv]
      have hcarried := hvs v (.head _) hv
      refine ih (fun r hr => ?_) hrest ?_
      · rcases mem_or_eq_of_mem_put hr with hold | rfl
        · exact hrows r hold
        · exact hcarried
      · rcases h with hmem | hmem
        · exact .inl (hbest.mem_put hrows hcarried (.inl hmem))
        · rcases mem_cons.mp hmem with rfl | hlater
          · exact .inl (hbest.mem_put hrows hcarried (.inr rfl))
          · exact .inr hlater
    · rw [if_neg hv]
      refine ih hrows hrest (h.imp_right fun hmem => ?_)
      rcases mem_cons.mp hmem with rfl | hlater
      · exact absurd halive hv
      · exact hlater

theorem Winner.alive (hbest : keys.Winner S best) (h : keys.Sourced S gone) :
    keys.Alive gone best := by
  intro d hd
  rcases h _ d hd with ⟨target, htarget, hmark⟩ | ⟨vs, tombstones, hoffer, hmem⟩
  · exact absurd hmark (hbest.kept target htarget)
  · exact hbest.fresh vs tombstones hoffer d hmem

/-! ## Steps -/

variable [DecidableEq I] {now : T}

section

variable (h : keys.Inv S done s)

include h

theorem Inv.put (hv : .put v ∈ S) (now : T) :
    keys.Inv S (insert (.put v) done) (keys.step s now (.put v)) where
  sound := by
    have hput := h.sound.put ⟨_, hv, rfl⟩ fun hnot => absurd hv hnot
    refine ⟨hput.carried, hput.slots, fun r hr hnot hmem => ?_⟩
    rcases hmem with hcase | hmem
    · cases hcase
    · exact hput.removed r hr hnot hmem
  sources := h.sources
  marked := by
    intro r hr target htarget hmark
    rcases htarget with hcase | htarget
    · cases hcase
    · exact h.marked r hr target htarget hmark
  won := by
    intro best hbest ch hch hcarries
    refine hbest.mem_put h.sound.carried ⟨_, hv, rfl⟩ ?_
    rcases hch with rfl | hch
    · exact .inr hcarries
    · exact .inl (h.won best hbest ch hch hcarries)

theorem Inv.offer {tombstones : List (I × T)} (hoffer : .offer vs tombstones ∈ S) (now : T) :
    keys.Inv S (insert (.offer vs tombstones) done) (keys.step s now (.offer vs tombstones)) := by
  set gone := merge s.gone tombstones
  -- what is put is later than the tombstones it came with, and was not deleted before
  have hvs : ∀ v ∈ vs, keys.Alive gone v →
      keys.Carried S v ∧ (.put v ∉ S → .remove (keys.victim v) ∉ done) := by
    intro v hv halive
    have hcarried : keys.Carried S v := by
      refine ⟨_, hoffer, hv, fun d hd => ?_⟩
      obtain ⟨e, he, hde⟩ := le_merge_of_mem hd
      exact lt_of_le_of_lt hde (halive e he)
    refine ⟨hcarried, fun _ hremoved => ?_⟩
    obtain ⟨d, hd, hle⟩ := h.marked v hcarried _ hremoved rfl
    obtain ⟨e, he, hde⟩ := le_merge_of_gone hd
    exact absurd (halive e he) (not_lt.mpr (hle.trans hde))
  have hsources : keys.Sourced S gone := by
    intro i d hd
    rcases merge_source hd with hold | hmem
    · exact h.sources i d hold
    · exact .inr ⟨vs, tombstones, hoffer, hmem⟩
  have hrows := h.sound.offerRows hvs
  refine ⟨⟨hrows.carried, hrows.slots, fun r hr hnot hmem => ?_⟩, hsources, ?_, ?_⟩
  · rcases hmem with hcase | hmem
    · cases hcase
    · exact hrows.removed r hr hnot hmem
  · intro r hr target htarget hmark
    rcases htarget with hcase | htarget
    · cases hcase
    · obtain ⟨d, hd, hle⟩ := h.marked r hr target htarget hmark
      obtain ⟨e, he, hde⟩ := le_merge_of_gone hd
      exact ⟨e, he, hle.trans hde⟩
  · intro best hbest ch hch hcarries
    refine hbest.mem_offerRows (hbest.alive hsources) h.sound.carried
      (fun v hv halive => (hvs v hv halive).1) ?_
    rcases hch with rfl | hch
    · exact .inr hcarries.1
    · exact .inl (h.won best hbest ch hch hcarries)

theorem Inv.remove {target : D} (htarget : .remove target ∈ S)
    (htime : keys.InTime S now (.remove target)) :
    keys.Inv S (insert (.remove target) done) (keys.step s now (.remove target)) := by
  refine ⟨⟨fun r hr => h.sound.carried r hr.1, fun r hr r' hr' => h.sound.slots r hr.1 r' hr'.1,
    fun r hr hnot hmem => ?_⟩, fun i d hd => ?_, fun r hr other hother hmark => ?_,
    fun best hbest ch hch hcarries => ?_⟩
  · rcases hmem with hcase | hmem
    · exact hr.2 (Change.remove.inj hcase)
    · exact h.sound.removed r hr.1 hnot hmem
  · by_cases hi : i = keys.mark target
    · exact .inl ⟨target, htarget, hi.symm⟩
    · exact h.sources i d ((update_of_ne hi ..).symm.trans hd)
  · by_cases hi : keys.ident r = keys.mark target
    · exact ⟨now, (congrArg _ hi).trans (update_self ..), htime r hr hi⟩
    · rcases hother with hcase | hother
      · rw [Change.remove.inj hcase] at hmark
        exact absurd hmark.symm hi
      · obtain ⟨d, hd, hle⟩ := h.marked r hr other hother hmark
        exact ⟨d, (update_of_ne hi ..).trans hd, hle⟩
  · rcases hch with rfl | hch
    · exact hcarries.elim
    · refine ⟨h.won best hbest ch hch hcarries, fun hvictim => ?_⟩
      exact hbest.kept target htarget (congrArg keys.mark hvictim.symm)

theorem Inv.step {ch : Change R D I T} (hch : ch ∈ S) (htime : keys.InTime S now ch) :
    keys.Inv S (insert ch done) (keys.step s now ch) := by
  cases ch with
  | put v => exact h.put hch now
  | offer vs tombstones => exact h.offer hch now
  | remove target => exact h.remove hch htime

end

variable {es : List (Change R D I T × T)}

theorem Inv.run (h : keys.Inv S done s) (hes : ∀ e ∈ es, e.1 ∈ S ∧ keys.InTime S e.2 e.1) :
    ∃ done', (∀ ch, ch ∈ done' ↔ ch ∈ done ∨ ∃ e ∈ es, e.1 = ch) ∧
      keys.Inv S done' (keys.run s es) := by
  induction es generalizing done s with
  | nil => exact ⟨done, fun ch => by simp, h⟩
  | cons e es ih =>
    obtain ⟨hmem, htime⟩ := hes e (.head _)
    obtain ⟨done', hdone, hinv⟩ := ih (h.step hmem htime)
      fun e' he' => hes e' (.tail _ he')
    refine ⟨done', fun ch => ?_, hinv⟩
    rw [hdone, Set.mem_insert_iff, or_comm (a := ch = e.1), or_assoc]
    simp only [mem_cons, exists_eq_or_imp]
    exact or_congr_right (or_congr_left eq_comm)

/-! ## Convergence -/

/-- The run applies the changes of `S`, each at least once and nothing else, every delete in
time. -/
structure Applies (keys : Keys R K D I T) (S : Set (Change R D I T))
    (es : List (Change R D I T × T)) : Prop where
  sound : ∀ e ∈ es, e.1 ∈ S
  complete : ∀ ch ∈ S, ∃ e ∈ es, e.1 = ch
  inTime : ∀ e ∈ es, keys.InTime S e.2 e.1

/-- **What a replica ends with are the winners**, if every slot is settled. -/
theorem Applies.mem_rows_iff (hsettled : ∀ k, keys.Settled S k) (hes : keys.Applies S es) (r : R) :
    r ∈ (keys.run empty es).rows ↔ keys.Winner S r := by
  obtain ⟨done, hdone, hinv⟩ := (inv_empty S).run fun e he => ⟨hes.sound e he, hes.inTime e he⟩
  have hall : ∀ ch ∈ S, ch ∈ done := fun ch hch => (hdone ch).mpr (.inr (hes.complete ch hch))
  have hwon : ∀ best, keys.Winner S best → best ∈ (keys.run empty es).rows := by
    intro best hbest
    obtain ⟨ch, hch, hcarries⟩ := hbest.carried
    exact hinv.won best hbest ch (hall ch hch) hcarries
  refine ⟨fun hr => ?_, hwon r⟩
  rcases hsettled (keys.slot r) with ⟨best, hslot, hbest⟩ | hdiscarded
  · rwa [hinv.sound.slots r hr best (hwon best hbest) hslot.symm]
  · obtain ⟨hput, hremove⟩ := hdiscarded r (hinv.sound.carried r hr) rfl
    exact absurd (hall _ hremove) (hinv.sound.removed r hr hput)

/-- **Replicas that applied the same changes hold the same rows**, if every slot is settled. -/
theorem converges (hsettled : ∀ k, keys.Settled S k) {es es' : List (Change R D I T × T)}
    (hes : keys.Applies S es) (hes' : keys.Applies S es') :
    (keys.run empty es).rows = (keys.run empty es').rows := by
  ext r
  rw [hes.mem_rows_iff hsettled, hes'.mem_rows_iff hsettled]

end Keys

end BetterMQ.LastWriter
