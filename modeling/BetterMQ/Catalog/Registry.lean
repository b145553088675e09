import BetterMQ.Lib.LastWriter
import BetterMQ.Partition.Route

/-!
# The catalog registries (`broker-partition/src/subscriptions.rs`, `flows.rs`)

Queues and flow profiles live in files of rows. A change is computed on the rows read back, and what
is written is the difference by id, which the next read applies to the rows before it.

* **`mem_mutate_iff`** — over rows with distinct ids that difference is the change itself;
* **`upsertFlow_rows`**, **`upsertQueue_rows`** — an upsert puts its row into its slot, as a
  last-writer-wins table does, as long as an id keeps its tenant and, for a queue, its name.
-/

namespace BetterMQ

open LastWriter List Option Set

/-- A queue as the catalog keeps it. -/
structure CatalogQueue extends Subscription where
  paused : Bool
  /-- Last catalog mutation time, in milliseconds since the epoch. -/
  updatedAtMs : Int
  deriving DecidableEq

/-- A flow profile as the catalog keeps it. -/
structure CatalogFlow extends FlowProfile where
  updatedAtMs : Int
  deriving DecidableEq

/-! ## Writing the difference -/

section Mutate

variable {R : Type} [DecidableEq R] (id : R → Uuid)

/-- The row that a map from ids, collected from the rows, holds: the last one. -/
def rowById (rows : List R) (i : Uuid) : Option R := rows.reverse.find? fun r => id r = i

/-- One upsert of `apply_command`. -/
def replaceOrPush (rows : List R) (row : R) : List R :=
  match rows.findIdx? fun r => id r = id row with
  | some pos => rows.set pos row
  | none => rows ++ [row]

def Catalog.applyCommand (rows upserts : List R) (deletes : List Uuid) : List R :=
  upserts.foldl (replaceOrPush id) (rows.filter fun r => id r ∉ deletes)

/-- `mutate`: the rows as they are read back after the difference to `after` was written. -/
def mutate (rows after : List R) : List R :=
  let upserts := after.filter fun r =>
    rowById id after (id r) = some r ∧ rowById id rows (id r) ≠ some r
  let deletes := (rows.map id).filter fun i => (rowById id after i).isNone
  Catalog.applyCommand id rows upserts deletes

end Mutate

/-- Put `row` at `pos` unless the row there is newer. -/
def replaceOlder {R : Type} (updatedAtMs : R → Int) (rows : List R) (pos : Nat) (row : R) :
    List R :=
  match rows[pos]? with
  | some old => if updatedAtMs old > updatedAtMs row then rows else rows.set pos row
  | none => rows

/-! ## Upserts and deletes -/

/-- `FlowProfileRegistry::upsert`. -/
def upsertFlow (now : Int) (rows : List CatalogFlow) (profile : CatalogFlow) : List CatalogFlow :=
  let profile := if profile.updatedAtMs = 0 then { profile with updatedAtMs := now } else profile
  mutate (·.id) rows <|
    match rows.findIdx? fun p => p.tenantId = profile.tenantId ∧ p.id = profile.id with
    | some pos => replaceOlder (·.updatedAtMs) rows pos profile
    | none => rows ++ [profile]

/-- `SubscriptionRegistry::upsert`. -/
def upsertQueue (now : Int) (rows : List CatalogQueue) (sub : CatalogQueue) : List CatalogQueue :=
  let sub := if sub.updatedAtMs = 0 then { sub with updatedAtMs := now } else sub
  mutate (·.id) rows <|
    match rows.findIdx? fun s => s.tenantId = sub.tenantId ∧ s.id = sub.id with
    | some pos => replaceOlder (·.updatedAtMs) rows pos sub
    | none =>
      match rows.findIdx? fun s => s.tenantId = sub.tenantId ∧ s.topic = sub.topic with
      | some pos => replaceOlder (·.updatedAtMs) rows pos sub
      | none => rows ++ [sub]

/-- `FlowProfileRegistry::delete`; nothing if the row is not there. -/
def deleteFlow (tenant : String) (id : Uuid) (rows : List CatalogFlow) :
    Option (List CatalogFlow) :=
  (rows.findIdx? fun p => p.tenantId = tenant ∧ p.id = id).map fun pos =>
    mutate (·.id) rows (rows.eraseIdx pos)

/-- `SubscriptionRegistry::delete`; nothing if the row is not there. -/
def deleteQueue (tenant : String) (id : Uuid) (rows : List CatalogQueue) :
    Option (List CatalogQueue) :=
  (rows.findIdx? fun s => s.tenantId = tenant ∧ s.id = id).map fun pos =>
    mutate (·.id) rows (rows.eraseIdx pos)

/-! ## Positions -/

section Position

variable {α : Type} {p : α → Bool} {xs : List α} {n : Nat}

theorem findIdx?_split (h : xs.findIdx? p = some n) :
    ∃ pre x post, xs = pre ++ x :: post ∧ pre.length = n ∧ p x = true := by
  obtain ⟨hlt, hp, -⟩ := findIdx?_eq_some_iff_getElem.mp h
  exact ⟨xs.take n, xs[n], xs.drop (n + 1), by simp, length_take_of_le hlt.le, hp⟩

theorem set_split (pre post : List α) (x y : α) :
    (pre ++ x :: post).set pre.length y = pre ++ y :: post := by
  rw [set_append_right _ _ le_rfl, Nat.sub_self, set_cons_zero]

theorem eraseIdx_split (pre post : List α) (x : α) :
    (pre ++ x :: post).eraseIdx pre.length = pre ++ post := by
  rw [eraseIdx_append_of_length_le le_rfl, Nat.sub_self, eraseIdx_cons_zero]

end Position

/-! ## The difference is the change -/

/-- The rows are told apart by their ids. -/
def DistinctIds {R : Type} (id : R → Uuid) (rows : List R) : Prop := (rows.map id).Nodup

section Difference

variable {R : Type} {id : R → Uuid} {rows after : List R} {r row : R} {i : Uuid}

section

variable (h : DistinctIds id rows)

include h

theorem DistinctIds.eq_of_id_eq {r' : R} (hr : r ∈ rows) (hr' : r' ∈ rows) (hid : id r = id r') :
    r = r' :=
  inj_on_of_nodup_map h hr hr' hid

theorem DistinctIds.rowById_iff : rowById id rows i = some r ↔ r ∈ rows ∧ id r = i := by
  unfold rowById
  constructor
  · intro hfind
    have hid := find?_some hfind
    exact ⟨mem_reverse.mp (mem_of_find?_eq_some hfind), of_decide_eq_true hid⟩
  · rintro ⟨hr, rfl⟩
    cases hfind : rows.reverse.find? fun r' => id r' = id r with
    | none =>
      have hnone := find?_eq_none.mp hfind r (mem_reverse.mpr hr)
      exact absurd (decide_eq_true rfl) hnone
    | some r' =>
      have hid := find?_some hfind
      have hmem := mem_reverse.mp (mem_of_find?_eq_some hfind)
      rw [h.eq_of_id_eq hmem hr (of_decide_eq_true hid)]

omit h in
theorem rowById_isNone_iff : (rowById id rows i).isNone = true ↔ ∀ r ∈ rows, id r ≠ i := by
  unfold rowById
  rw [isNone_iff_eq_none, find?_eq_none]
  constructor
  · exact fun h r hr hid => h r (mem_reverse.mpr hr) (decide_eq_true hid)
  · exact fun h r hr hid => h r (mem_reverse.mp hr) (of_decide_eq_true hid)

omit h in
theorem distinctIds_middle {pre post : List R} :
    DistinctIds id (pre ++ r :: post) ↔
      (∀ r' ∈ pre ++ post, id r' ≠ id r) ∧ DistinctIds id (pre ++ post) := by
  rw [DistinctIds, (perm_middle.map id).nodup_iff, map_cons, nodup_cons]
  simp only [List.mem_map, not_exists, not_and]
  rfl

omit h in
theorem distinctIds_replace {pre post : List R} {old : R}
    (h : DistinctIds id (pre ++ old :: post)) (hid : ∀ r ∈ pre ++ post, id r ≠ id row) :
    DistinctIds id (pre ++ row :: post) ∧
      ∀ r, r ∈ pre ++ row :: post ↔ r = row ∨ (r ∈ pre ++ old :: post ∧ r ≠ old) := by
  obtain ⟨hold, hrest⟩ := distinctIds_middle.mp h
  refine ⟨distinctIds_middle.mpr ⟨hid, hrest⟩, fun r => ?_⟩
  rw [perm_middle.mem_iff, mem_cons, perm_middle.mem_iff, mem_cons]
  refine or_congr_right ⟨fun hr => ⟨.inr hr, ?_⟩, fun hr => hr.1.resolve_left hr.2⟩
  rintro rfl
  exact hold r hr rfl

theorem DistinctIds.push (hfree : ∀ r ∈ rows, id r ≠ id row) : DistinctIds id (rows ++ [row]) :=
  distinctIds_middle.mpr ⟨by rwa [append_nil], by rwa [append_nil]⟩

theorem DistinctIds.replaceOrPush (row : R) :
    DistinctIds id (replaceOrPush id rows row) ∧
      ∀ r, r ∈ BetterMQ.replaceOrPush id rows row ↔ r = row ∨ (r ∈ rows ∧ id r ≠ id row) := by
  unfold BetterMQ.replaceOrPush
  cases hfind : rows.findIdx? fun r => id r = id row with
  | none =>
    have hnone : ∀ r ∈ rows, id r ≠ id row :=
      fun r hr => of_decide_eq_false (findIdx?_eq_none_iff.mp hfind r hr)
    refine ⟨h.push hnone, fun r => ?_⟩
    rw [mem_append, List.mem_singleton, or_comm]
    exact or_congr_right ⟨fun hr => ⟨hr, hnone r hr⟩, And.left⟩
  | some pos =>
    obtain ⟨pre, old, post, rfl, rfl, hold⟩ := findIdx?_split hfind
    have hid : id old = id row := of_decide_eq_true hold
    have hother : ∀ r ∈ pre ++ post, id r ≠ id row := hid ▸ (distinctIds_middle.mp h).1
    dsimp only
    rw [set_split]
    obtain ⟨hnodup, hmem⟩ := distinctIds_replace h hother
    refine ⟨hnodup, fun r => (hmem r).trans (or_congr_right (and_congr_right fun hr => ?_))⟩
    rw [← hid]
    exact not_congr ⟨fun heq => congrArg id heq,
      fun heq => h.eq_of_id_eq hr (mem_append_right _ (.head _)) heq⟩

theorem DistinctIds.replaceAll {upserts : List R} (hup : DistinctIds id upserts) :
    DistinctIds id (upserts.foldl (BetterMQ.replaceOrPush id) rows) ∧
      ∀ r, r ∈ upserts.foldl (BetterMQ.replaceOrPush id) rows ↔
        r ∈ upserts ∨ (r ∈ rows ∧ ∀ u ∈ upserts, id r ≠ id u) := by
  induction upserts generalizing rows with
  | nil => exact ⟨h, fun r => by simp⟩
  | cons u upserts ih =>
    obtain ⟨hu, hrest⟩ := nodup_cons.mp hup
    obtain ⟨hdistinct, hmem⟩ := h.replaceOrPush u
    obtain ⟨hdistinct', hmem'⟩ := ih hdistinct hrest
    refine ⟨hdistinct', fun r => (hmem' r).trans ?_⟩
    rw [hmem, mem_cons, forall_mem_cons]
    constructor
    · rintro (hr | ⟨rfl | ⟨hr, hne⟩, hothers⟩)
      · exact .inl (.inr hr)
      · exact .inl (.inl rfl)
      · exact .inr ⟨hr, hne, hothers⟩
    · rintro ((rfl | hr) | ⟨hr, hne, hothers⟩)
      · refine .inr ⟨.inl rfl, fun u' hu' hid => hu ?_⟩
        exact mem_map.mpr ⟨u', hu', hid.symm⟩
      · exact .inl hr
      · exact .inr ⟨.inr ⟨hr, hne⟩, hothers⟩

end

/-- **What is written is the change**: the rows read back are those of `after`. -/
theorem mem_mutate_iff [DecidableEq R] (hrows : DistinctIds id rows)
    (hafter : DistinctIds id after) :
    DistinctIds id (mutate id rows after) ∧ ∀ r, r ∈ mutate id rows after ↔ r ∈ after := by
  set upserts := after.filter fun r =>
    rowById id after (id r) = some r ∧ rowById id rows (id r) ≠ some r with hupserts
  set kept := rows.filter fun r =>
    id r ∉ (rows.map id).filter fun i => (rowById id after i).isNone with hkept
  have hup : ∀ r, r ∈ upserts ↔ r ∈ after ∧ r ∉ rows := by
    intro r
    rw [mem_filter, decide_eq_true_eq, hafter.rowById_iff, Ne, hrows.rowById_iff]
    constructor
    · exact fun h => ⟨h.1, fun hr => h.2.2 ⟨hr, rfl⟩⟩
    · exact fun h => ⟨h.1, ⟨h.1, rfl⟩, fun hr => h.2 hr.1⟩
  have hkept' : ∀ r, r ∈ kept ↔ r ∈ rows ∧ ∃ a ∈ after, id a = id r := by
    intro r
    rw [mem_filter, decide_eq_true_eq, mem_filter]
    refine and_congr_right fun hr => ?_
    rw [not_and, rowById_isNone_iff]
    have hmem := mem_map_of_mem (f := id) hr
    constructor
    · intro h
      by_contra hnone
      exact h hmem fun a ha hid => hnone ⟨a, ha, hid⟩
    · rintro ⟨a, ha, hid⟩ - hall
      exact hall a ha hid
  have hdkept : DistinctIds id kept := (filter_sublist.map id).nodup hrows
  have hdup : DistinctIds id upserts := (filter_sublist.map id).nodup hafter
  obtain ⟨hdistinct, hmem⟩ := hdkept.replaceAll hdup
  refine ⟨hdistinct, fun r => (hmem r).trans ?_⟩
  rw [hup, hkept']
  constructor
  · rintro (⟨hr, -⟩ | ⟨⟨hr, a, ha, hid⟩, hothers⟩)
    · exact hr
    · -- the row of `after` with its id is no upsert, so it is the row itself
      by_cases ha' : a ∈ rows
      · rwa [← hrows.eq_of_id_eq ha' hr hid]
      · exact absurd hid.symm (hothers a ((hup a).mpr ⟨ha, ha'⟩))
  · intro hr
    by_cases hold : r ∈ rows
    · refine .inr ⟨⟨hold, r, hr, rfl⟩, fun u hu hid => ?_⟩
      obtain ⟨hu, hnew⟩ := (hup u).mp hu
      exact hnew (hafter.eq_of_id_eq hr hu hid ▸ hold)
    · exact .inl ⟨hr, hold⟩

end Difference

/-! ## Registries as last-writer-wins tables -/

/-- Flow profiles replace each other by id. -/
def flowKeys : Keys CatalogFlow (String × Uuid) (String × Uuid) Uuid Int where
  slot := fun p => (p.tenantId, p.id)
  victim := fun p => (p.tenantId, p.id)
  mark := Prod.snd
  stamp := (·.updatedAtMs)

/-- Queues replace each other by name. -/
def queueKeys : Keys CatalogQueue (String × String) (String × Uuid) Uuid Int where
  slot := fun s => (s.tenantId, s.topic)
  victim := fun s => (s.tenantId, s.id)
  mark := Prod.snd
  stamp := (·.updatedAtMs)

section Table

variable {R K D : Type} {keys : Keys R K D Uuid Int} {known : Set R} {rows rows' : List R} {v : R}

/-- An id never changes its slot. -/
def Coherent (keys : Keys R K D Uuid Int) (known : Set R) : Prop :=
  ∀ r ∈ known, ∀ r' ∈ known, keys.ident r = keys.ident r' → keys.slot r = keys.slot r'

/-- One row for each id and for each slot. -/
structure Tidy (keys : Keys R K D Uuid Int) (known : Set R) (rows : List R) : Prop where
  known : ∀ r ∈ rows, r ∈ known
  ids : DistinctIds keys.ident rows
  slots : keys.OnePerSlot {r | r ∈ rows}

theorem tidy_nil : Tidy keys known [] where
  known := nofun
  ids := nodup_nil
  slots := nofun

/-- The rows after `v` was put into its slot. -/
structure PutInto (keys : Keys R K D Uuid Int) (known : Set R) (rows : List R) (v : R)
    (rows' : List R) : Prop where
  tidy : Tidy keys known rows'
  rows_eq : {r | r ∈ rows'} = keys.put {r | r ∈ rows} v

section

variable (h : Tidy keys known rows) {p : R → Bool}

include h

theorem Tidy.putInto (hv : v ∈ known) (hids : DistinctIds keys.ident rows')
    (hrows : ∀ r, r ∈ rows' ↔ r ∈ keys.put {r | r ∈ rows} v) : PutInto keys known rows v rows' := by
  have heq : {r | r ∈ rows'} = keys.put {r | r ∈ rows} v := Set.ext hrows
  refine ⟨⟨fun r hr => ?_, hids, heq ▸ h.slots.put v⟩, heq⟩
  rcases Keys.mem_or_eq_of_mem_put ((hrows r).mp hr) with hold | rfl
  · exact h.known r hold
  · exact hv

theorem PutInto.mutate [DecidableEq R] (hput : PutInto keys known rows v rows') :
    PutInto keys known rows v (BetterMQ.mutate keys.ident rows rows') := by
  obtain ⟨hids, hmem⟩ := mem_mutate_iff h.ids hput.tidy.ids
  have heq : {r | r ∈ BetterMQ.mutate keys.ident rows rows'} = {r | r ∈ rows'} := Set.ext hmem
  exact ⟨⟨fun r hr => hput.tidy.known r ((hmem r).mp hr), hids, heq ▸ hput.tidy.slots⟩,
    heq.trans hput.rows_eq⟩

theorem Tidy.replaceOlder (hcoherent : Coherent keys known) (hv : v ∈ known) {pos : Nat}
    (hpos : rows.findIdx? p = some pos)
    (hslot : ∀ r ∈ rows, p r = true → keys.slot r = keys.slot v) :
    PutInto keys known rows v (replaceOlder keys.stamp rows pos v) := by
  obtain ⟨pre, old, post, rfl, rfl, hp⟩ := findIdx?_split hpos
  have hmem : old ∈ pre ++ old :: post := mem_append_right _ (.head _)
  have hold := hslot old hmem hp
  have honly : ∀ r ∈ pre ++ old :: post, keys.slot r = keys.slot v → r = old :=
    fun r hr hr' => h.slots r hr old hmem (hr'.trans hold.symm)
  unfold BetterMQ.replaceOlder
  rw [getElem?_append_right le_rfl, Nat.sub_self, getElem?_cons_zero]
  dsimp only
  split
  · next hnewer =>
    refine h.putInto hv h.ids fun r => ⟨fun hr => .inl ⟨hr, ?_⟩, ?_⟩
    · by_cases hr' : keys.slot r = keys.slot v
      · exact .inr (honly r hr hr' ▸ hnewer)
      · exact .inl hr'
    · rintro (hr | ⟨rfl, hwins⟩)
      · exact hr.1
      · exact absurd (hwins old hmem hold) (not_le.mpr hnewer)
  · next holder =>
    have hothers : ∀ r ∈ pre ++ post, keys.ident r ≠ keys.ident v := by
      intro r hr hid
      have hr' : r ∈ pre ++ old :: post := by
        rcases mem_append.mp hr with hr | hr
        · exact mem_append_left _ hr
        · exact mem_append_right _ (.tail _ hr)
      have heq := honly r hr' (hcoherent r (h.known r hr') v hv hid)
      exact (distinctIds_middle.mp h.ids).1 r hr (heq ▸ rfl)
    rw [set_split]
    obtain ⟨hids, hrows⟩ := distinctIds_replace h.ids hothers
    refine h.putInto hv hids fun r => (hrows r).trans ⟨?_, ?_⟩
    · rintro (rfl | ⟨hr, hne⟩)
      · exact .inr ⟨rfl, fun other hother hslot => honly other hother hslot ▸ not_lt.mp holder⟩
      · exact .inl ⟨hr, .inl fun hr' => hne (honly r hr hr')⟩
    · rintro (⟨hr, hstays⟩ | ⟨rfl, -⟩)
      · refine .inr ⟨hr, ?_⟩
        rintro rfl
        exact holder (hstays.resolve_left fun hne => hne hold)
      · exact .inl rfl

theorem Tidy.push (hcoherent : Coherent keys known) (hv : v ∈ known)
    (hfree : ∀ r ∈ rows, keys.slot r ≠ keys.slot v) : PutInto keys known rows v (rows ++ [v]) := by
  refine h.putInto hv (h.ids.push fun r hr hid => ?_) fun r => ?_
  · exact hfree r hr (hcoherent r (h.known r hr) v hv hid)
  · rw [mem_append, List.mem_singleton]
    constructor
    · rintro (hr | rfl)
      · exact .inl ⟨hr, .inl (hfree r hr)⟩
      · exact .inr ⟨rfl, fun old hold hslot => absurd hslot (hfree old hold)⟩
    · exact Or.imp And.left And.left

/-- Deleting the row that `p` finds, if `p` picks the rows with one victim. -/
theorem Tidy.erase [DecidableEq R] {target : D} (hp : ∀ r, p r = true ↔ keys.victim r = target)
    (hrows : rows' = ((rows.findIdx? p).map fun pos =>
      mutate keys.ident rows (rows.eraseIdx pos)).getD rows) :
    Tidy keys known rows' ∧ {r | r ∈ rows'} = {r ∈ {r | r ∈ rows} | keys.victim r ≠ target} := by
  cases hpos : rows.findIdx? p with
  | none =>
    rw [hpos] at hrows
    obtain rfl : rows' = rows := hrows
    refine ⟨h, Set.ext fun r => ⟨fun hr => ⟨hr, fun hvictim => ?_⟩, And.left⟩⟩
    have hno := findIdx?_eq_none_iff.mp hpos r hr
    rw [(hp r).mpr hvictim] at hno
    cases hno
  | some pos =>
    rw [hpos] at hrows
    obtain ⟨pre, old, post, rfl, rfl, hold⟩ := findIdx?_split hpos
    rw [map_some, getD_some, eraseIdx_split] at hrows
    obtain ⟨hothers, hids⟩ := distinctIds_middle.mp h.ids
    obtain ⟨hids', hmem⟩ := mem_mutate_iff h.ids hids
    have hset : {r | r ∈ rows'} = {r ∈ {r | r ∈ pre ++ old :: post} | keys.victim r ≠ target} := by
      ext r
      have hsplit : r ∈ pre ++ old :: post ↔ r = old ∨ r ∈ pre ++ post := by
        rw [perm_middle.mem_iff, mem_cons]
      rw [mem_ofPred_eq, hrows, hmem, mem_ofPred_eq, mem_ofPred_eq, hsplit]
      constructor
      · refine fun hr => ⟨.inr hr, fun hvictim => hothers r hr ?_⟩
        exact congrArg keys.mark (hvictim.trans ((hp old).mp hold).symm)
      · rintro ⟨rfl | hr, hvictim⟩
        · exact absurd ((hp r).mp hold) hvictim
        · exact hr
    refine ⟨⟨fun r hr => ?_, hrows ▸ hids', fun r hr r' hr' => ?_⟩, hset⟩
    · exact h.known r (hset.subset hr).1
    · exact h.slots r (hset.subset hr).1 r' (hset.subset hr').1

end

end Table

/-- **An upsert of a flow profile puts it into its slot.** -/
theorem upsertFlow_rows {known : Set CatalogFlow} {rows : List CatalogFlow} {profile : CatalogFlow}
    (h : Tidy flowKeys known rows) (hcoherent : Coherent flowKeys known) (hv : profile ∈ known)
    (hstamp : profile.updatedAtMs ≠ 0) (now : Int) :
    PutInto flowKeys known rows profile (upsertFlow now rows profile) := by
  unfold upsertFlow
  rw [if_neg hstamp]
  refine PutInto.mutate h ?_
  split
  · next pos hpos =>
    refine h.replaceOlder hcoherent hv hpos fun r _ hr => ?_
    exact Prod.ext (of_decide_eq_true hr).1 (of_decide_eq_true hr).2
  · next hnone =>
    refine h.push hcoherent hv fun r hr hslot => ?_
    exact of_decide_eq_false (findIdx?_eq_none_iff.mp hnone r hr) (Prod.mk.inj hslot)

/-- **An upsert of a queue puts it into its slot**, found by its id or else by its name. -/
theorem upsertQueue_rows {known : Set CatalogQueue} {rows : List CatalogQueue} {sub : CatalogQueue}
    (h : Tidy queueKeys known rows) (hcoherent : Coherent queueKeys known) (hv : sub ∈ known)
    (hstamp : sub.updatedAtMs ≠ 0) (now : Int) :
    PutInto queueKeys known rows sub (upsertQueue now rows sub) := by
  unfold upsertQueue
  rw [if_neg hstamp]
  refine PutInto.mutate h ?_
  split
  · next pos hpos =>
    refine h.replaceOlder hcoherent hv hpos fun r hr hsame => ?_
    exact hcoherent r (h.known r hr) sub hv (of_decide_eq_true hsame).2
  · split
    · next pos hpos =>
      refine h.replaceOlder hcoherent hv hpos fun r _ hr => ?_
      exact Prod.ext (of_decide_eq_true hr).1 (of_decide_eq_true hr).2
    · next hnone =>
      refine h.push hcoherent hv fun r hr hslot => ?_
      exact of_decide_eq_false (findIdx?_eq_none_iff.mp hnone r hr) (Prod.mk.inj hslot)

theorem sameVictim_iff {tenant tenant' : String} {id id' : Uuid} :
    decide (tenant' = tenant ∧ id' = id) = true ↔ (tenant', id') = (tenant, id) := by
  rw [decide_eq_true_eq, Prod.mk.injEq]

end BetterMQ
