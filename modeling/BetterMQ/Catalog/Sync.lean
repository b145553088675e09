import BetterMQ.Catalog.Registry

/-!
# Catalog sync between nodes (`broker-api/src/cluster.rs`, `catalog_tombstones.rs`)

Nodes send each other upserts and deletes of queues and flow profiles, and whole snapshots of their
catalog. A snapshot brings tombstones along and its rows are held back by them; a single upsert is
not, and a delete stamps its tombstone with the clock of the node that applies it.

* **`CatalogNode.Tidy.apply_view`** — applying a change is a step of the last-writer-wins table over
  both kinds of rows, as long as an id keeps its slot and every row has a stamp;
* **`catalog_converges`** — nodes that applied the same changes in whatever order, with repeats,
  hold the same rows, if every slot is settled: its newest row is strictly newer than the others and
  not deleted, or its rows came in snapshots only and all of them were deleted in time;
* **`equal_stamps_and_late_upsert_diverge`** — without that they do not: of two upserts with the
  same stamp the later arrival stays, and an upsert that arrives after the delete brings the row
  back. -/

namespace BetterMQ

open LastWriter Keys List

/-! ## A node's catalog -/

/-- The catalog of one node; the tombstone file is a map from ids. -/
structure CatalogNode where
  flows : List CatalogFlow
  queues : List CatalogQueue
  tombstones : Uuid → Option Int

def CatalogNode.empty : CatalogNode := ⟨[], [], fun _ => none⟩

structure CatalogSnapshot where
  flows : List CatalogFlow
  queues : List CatalogQueue
  tombstones : List (Uuid × Int)
  deriving DecidableEq

/-- What a node sends to its peers. -/
inductive CatalogChange where
  | flow (profile : CatalogFlow)
  | queue (sub : CatalogQueue)
  | deleteFlow (flowId : Uuid)
  | deleteQueue (queueId : Uuid)
  | snapshot (snap : CatalogSnapshot)
  deriving DecidableEq

inductive CatalogError where
  | destinationUrl
  deriving DecidableEq

abbrev CatalogM := Prog CatalogNode CatalogError

/-- `CatalogTombstones::record`. -/
def recordTombstone (now : Int) (id : Uuid) (tombstones : Uuid → Option Int) : Uuid → Option Int :=
  Function.update tombstones id (some now)

/-- One tombstone of `CatalogTombstones::merge_remote`. -/
def mergeTombstone (tombstones : Uuid → Option Int) (remote : Uuid × Int) : Uuid → Option Int :=
  match tombstones remote.1 with
  | some existing =>
    if remote.2 > existing then Function.update tombstones remote.1 (some remote.2) else tombstones
  | none => Function.update tombstones remote.1 (some remote.2)

def mergeRemote (tombstones : Uuid → Option Int) (remote : List (Uuid × Int)) :
    Uuid → Option Int :=
  remote.foldl mergeTombstone tombstones

def catalogItemAlive (id : Uuid) (updatedAtMs : Int) (tombstones : Uuid → Option Int) : Bool :=
  ((tombstones id).map fun deletedAt => decide (updatedAtMs > deletedAt)).getD true

section Handlers

variable (validUrl : String → Bool) (tenant : String) (now : Int)

def upsertFlowProfile (profile : CatalogFlow) : CatalogM Unit :=
  Prog.modify fun n => { n with flows := upsertFlow now n.flows profile }

def upsertSubscriptionCatalog (sub : CatalogQueue) : CatalogM Unit :=
  Prog.modify fun n => { n with queues := upsertQueue now n.queues sub }

/-- The loop over the flow profiles of a snapshot. -/
def applySnapshotFlows (tombstones : Uuid → Option Int) (flows : List CatalogFlow) :
    CatalogM PUnit :=
  flows.forM fun profile =>
    if catalogItemAlive profile.id profile.updatedAtMs tombstones then
      upsertFlowProfile now profile
    else pure ()

/-- The loop over the queues of a snapshot; a bad URL ends it. -/
def applySnapshotQueues (tombstones : Uuid → Option Int) (queues : List CatalogQueue) :
    CatalogM PUnit :=
  queues.forM fun sub =>
    if catalogItemAlive sub.id sub.updatedAtMs tombstones then do
      Prog.check (validUrl sub.url) .destinationUrl
      upsertSubscriptionCatalog now sub
    else pure ()

def applyCatalogSnapshot (snap : CatalogSnapshot) : CatalogM PUnit := do
  Prog.modify fun n => { n with tombstones := mergeRemote n.tombstones snap.tombstones }
  let n ← Prog.get
  applySnapshotFlows now n.tombstones snap.flows
  applySnapshotQueues validUrl now n.tombstones snap.queues

/-- `internal_catalog_delete_flow`: the tombstone is recorded whether the row is there or not. -/
def internalCatalogDeleteFlow (flowId : Uuid) : CatalogM PUnit :=
  Prog.modify fun n =>
    { n with
      tombstones := recordTombstone now flowId n.tombstones
      flows := (deleteFlow tenant flowId n.flows).getD n.flows }

def internalCatalogDeleteQueue (queueId : Uuid) : CatalogM PUnit :=
  Prog.modify fun n =>
    { n with
      tombstones := recordTombstone now queueId n.tombstones
      queues := (deleteQueue tenant queueId n.queues).getD n.queues }

/-- The handler of a change, at the clock reading `now`. -/
def handleChange : CatalogChange → CatalogM PUnit
  | .flow profile => upsertFlowProfile now profile
  | .queue sub => upsertSubscriptionCatalog now sub
  | .deleteFlow flowId => internalCatalogDeleteFlow tenant now flowId
  | .deleteQueue queueId => internalCatalogDeleteQueue tenant now queueId
  | .snapshot snap => applyCatalogSnapshot validUrl now snap

end Handlers

section

variable (validUrl : String → Bool) (tenant : String) (n : CatalogNode)

/-- The node after a change, also after one that failed half-way. -/
def CatalogNode.apply (e : CatalogChange × Int) : CatalogNode :=
  (handleChange validUrl tenant e.2 e.1 n).2

/-- The node after changes, each with the clock reading at which it was applied. -/
def CatalogNode.applyAll (es : List (CatalogChange × Int)) : CatalogNode :=
  es.foldl (CatalogNode.apply validUrl tenant) n

end

/-! ## The table a catalog is -/

abbrev CatalogRow := CatalogFlow ⊕ CatalogQueue

/-- The delete of a row: its kind, tenant and id. -/
abbrev CatalogTarget := (String × Uuid) ⊕ (String × Uuid)

def catalogKeys :
    Keys CatalogRow ((String × Uuid) ⊕ (String × String)) CatalogTarget Uuid Int :=
  flowKeys.sum queueKeys

/-- A change as a change of the table; deletes act on the tenant of the node. -/
def CatalogChange.toTable (tenant : String) :
    CatalogChange → Change CatalogRow CatalogTarget Uuid Int
  | .flow profile => .put (.inl profile)
  | .queue sub => .put (.inr sub)
  | .deleteFlow flowId => .remove (.inl (tenant, flowId))
  | .deleteQueue queueId => .remove (.inr (tenant, queueId))
  | .snapshot snap => .offer (snap.flows.map .inl ++ snap.queues.map .inr) snap.tombstones

def CatalogNode.view (n : CatalogNode) : Replica CatalogRow Uuid Int :=
  ⟨Keys.both {f | f ∈ n.flows} {q | q ∈ n.queues}, n.tombstones⟩

/-! ## Changes that meet no surprise -/

def CatalogChange.flows : CatalogChange → List CatalogFlow
  | .flow profile => [profile]
  | .snapshot snap => snap.flows
  | _ => []

def CatalogChange.queues : CatalogChange → List CatalogQueue
  | .queue sub => [sub]
  | .snapshot snap => snap.queues
  | _ => []

/-- The rows that a set of changes brings. -/
def flowsOf (S : Set CatalogChange) : Set CatalogFlow := {f | ∃ ch ∈ S, f ∈ ch.flows}

def queuesOf (S : Set CatalogChange) : Set CatalogQueue := {q | ∃ ch ∈ S, q ∈ ch.queues}

/-- The rows are stamped, an id keeps its tenant and name, and a snapshot has only URLs that every
node accepts. -/
structure WellFormed (validUrl : String → Bool) (S : Set CatalogChange) : Prop where
  flowSlots : Coherent flowKeys (flowsOf S)
  queueSlots : Coherent queueKeys (queuesOf S)
  flowStamps : ∀ f ∈ flowsOf S, f.updatedAtMs ≠ 0
  queueStamps : ∀ q ∈ queuesOf S, q.updatedAtMs ≠ 0
  urls : ∀ snap, .snapshot snap ∈ S → ∀ q ∈ snap.queues, validUrl q.url = true

/-- The node holds rows of `S`, one for each id and slot. -/
structure CatalogNode.Tidy (S : Set CatalogChange) (n : CatalogNode) : Prop where
  flows : BetterMQ.Tidy flowKeys (flowsOf S) n.flows
  queues : BetterMQ.Tidy queueKeys (queuesOf S) n.queues

variable {es : List (CatalogChange × Int)} {v : CatalogRow}

section View

variable {validUrl : String → Bool} {tenant : String} {S : Set CatalogChange} {n : CatalogNode}

theorem catalogNode_empty_tidy : CatalogNode.empty.Tidy S := ⟨tidy_nil, tidy_nil⟩

theorem catalogNode_empty_view : CatalogNode.empty.view = Keys.empty := by
  have hrows : Keys.both {f : CatalogFlow | f ∈ []} {q : CatalogQueue | q ∈ []} = ∅ := by
    ext r
    rcases r with r | r <;> simp [Keys.both]
  exact congrArg (Replica.mk · fun _ => none) hrows

theorem mergeTombstone_eq_raise : mergeTombstone = Keys.raise := by
  funext tombstones remote
  unfold mergeTombstone Keys.raise
  cases hold : tombstones remote.1 with
  | none => rfl
  | some existing =>
    dsimp only [Keys.later]
    split
    · next hlater => rw [max_eq_right hlater.le]
    · next hnot =>
      rw [max_eq_left (not_lt.mp hnot), ← hold]
      exact (Function.update_eq_self ..).symm

theorem mergeRemote_eq_merge : mergeRemote = Keys.merge (T := Int) := by
  unfold mergeRemote Keys.merge
  rw [mergeTombstone_eq_raise]

theorem catalogItemAlive_iff {id : Uuid} {updatedAtMs : Int} {tombstones : Uuid → Option Int} :
    catalogItemAlive id updatedAtMs tombstones = true ↔
      ∀ d ∈ tombstones id, d < updatedAtMs := by
  unfold catalogItemAlive
  cases tombstones id with
  | none => exact ⟨fun _ d hd => (by cases hd), fun _ => rfl⟩
  | some deletedAt =>
    refine (decide_eq_true_iff).trans ⟨fun h d hd => ?_, fun h => h deletedAt rfl⟩
    cases hd
    exact h

theorem CatalogNode.Tidy.upsertFlow (h : n.Tidy S) (hS : WellFormed validUrl S) (now : Int)
    {f : CatalogFlow} (hf : f ∈ flowsOf S) :
    CatalogNode.Tidy S { n with flows := upsertFlow now n.flows f } ∧
      CatalogNode.view { n with flows := BetterMQ.upsertFlow now n.flows f } =
        ⟨catalogKeys.put n.view.rows (.inl f), n.tombstones⟩ := by
  have hput := upsertFlow_rows h.flows hS.flowSlots hf (hS.flowStamps f hf) now
  refine ⟨⟨hput.tidy, h.queues⟩, ?_⟩
  unfold CatalogNode.view catalogKeys
  rw [hput.rows_eq, sum_put_inl]

theorem CatalogNode.Tidy.upsertQueue (h : n.Tidy S) (hS : WellFormed validUrl S) (now : Int)
    {q : CatalogQueue} (hq : q ∈ queuesOf S) :
    CatalogNode.Tidy S { n with queues := upsertQueue now n.queues q } ∧
      CatalogNode.view { n with queues := BetterMQ.upsertQueue now n.queues q } =
        ⟨catalogKeys.put n.view.rows (.inr q), n.tombstones⟩ := by
  have hput := upsertQueue_rows h.queues hS.queueSlots hq (hS.queueStamps q hq) now
  refine ⟨⟨h.flows, hput.tidy⟩, ?_⟩
  unfold CatalogNode.view catalogKeys
  rw [hput.rows_eq, sum_put_inr]

/-- What the loops of a snapshot do: they finish, and put the rows that are alive. -/
def Offers (S : Set CatalogChange) (p : CatalogM PUnit) (n : CatalogNode)
    (gone : Uuid → Option Int) (rows : List CatalogRow) : Prop :=
  ∃ n', p n = (.ok ⟨⟩, n') ∧ n'.Tidy S ∧
    n'.view = ⟨catalogKeys.offerRows gone n.view.rows rows, n.tombstones⟩

theorem Offers.nil (h : n.Tidy S) (gone : Uuid → Option Int) : Offers S (pure ⟨⟩) n gone [] :=
  ⟨n, rfl, h, rfl⟩

theorem Offers.cons {p q : CatalogM PUnit} {gone : Uuid → Option Int}
    {vs : List CatalogRow} (hp : Offers S p n gone [v])
    (hq : ∀ n', n'.Tidy S → Offers S q n' gone vs) :
    Offers S (p >>= fun _ => q) n gone (v :: vs) := by
  obtain ⟨n₁, hrun₁, htidy₁, hview₁⟩ := hp
  obtain ⟨n₂, hrun₂, htidy₂, hview₂⟩ := hq n₁ htidy₁
  have hgone : n₁.tombstones = n.tombstones := congrArg Replica.gone hview₁
  refine ⟨n₂, (Prog.bind_ok hrun₁).trans hrun₂, htidy₂, ?_⟩
  rw [hview₂, hview₁, hgone]
  exact congrArg (Replica.mk · _) (offerRows_cons gone n.view.rows v vs).symm

theorem Offers.single {p : CatalogM PUnit} {gone : Uuid → Option Int} (h : n.Tidy S) {alive : Bool}
    (halive : alive = true ↔ catalogKeys.Alive gone v)
    (hput : ∃ n', p n = (.ok ⟨⟩, n') ∧ n'.Tidy S ∧
      n'.view = ⟨catalogKeys.put n.view.rows v, n.tombstones⟩) :
    Offers S (if alive then p else pure ()) n gone [v] := by
  unfold Offers Keys.offerRows
  rw [foldl_cons]
  by_cases hv : catalogKeys.Alive gone v
  · rw [if_pos hv, if_pos (halive.mpr hv)]
    exact hput
  · rw [if_neg hv, if_neg fun hcontra => hv (halive.mp hcontra)]
    exact ⟨n, rfl, h, rfl⟩

section

variable (hS : WellFormed validUrl S) (now : Int) (h : n.Tidy S) (gone : Uuid → Option Int)

include hS now h gone

theorem applySnapshotFlows_offers {flows : List CatalogFlow} (hflows : ∀ f ∈ flows, f ∈ flowsOf S) :
    Offers S (applySnapshotFlows now gone flows) n gone (flows.map .inl) := by
  induction flows generalizing n with
  | nil => exact .nil h gone
  | cons f flows ih =>
    obtain ⟨hf, hrest⟩ := forall_mem_cons.mp hflows
    exact .cons (.single h catalogItemAlive_iff ⟨_, rfl, h.upsertFlow hS now hf⟩)
      fun n' hn' => ih hn' hrest

theorem applySnapshotQueues_offers {queues : List CatalogQueue}
    (hqueues : ∀ q ∈ queues, q ∈ queuesOf S) (hurls : ∀ q ∈ queues, validUrl q.url = true) :
    Offers S (applySnapshotQueues validUrl now gone queues) n gone (queues.map .inr) := by
  induction queues generalizing n with
  | nil => exact .nil h gone
  | cons q queues ih =>
    obtain ⟨hq, hrest⟩ := forall_mem_cons.mp hqueues
    obtain ⟨hurl, hurls⟩ := forall_mem_cons.mp hurls
    refine .cons (.single h catalogItemAlive_iff ⟨_, ?_, h.upsertQueue hS now hq⟩)
      fun n' hn' => ih hn' hrest hurls
    unfold Prog.check
    rw [if_pos hurl]
    rfl

end

section

variable (h : n.Tidy S) (hS : WellFormed validUrl S)

include h hS

theorem CatalogNode.Tidy.applySnapshot
    {snap : CatalogSnapshot} (hsnap : .snapshot snap ∈ S) (now : Int) :
    (n.apply validUrl tenant (.snapshot snap, now)).Tidy S ∧
      (n.apply validUrl tenant (.snapshot snap, now)).view =
        catalogKeys.step n.view now ((CatalogChange.snapshot snap).toTable tenant) := by
  set n₁ : CatalogNode := { n with tombstones := mergeRemote n.tombstones snap.tombstones }
  have hflows : ∀ f ∈ snap.flows, f ∈ flowsOf S := fun f hf => ⟨_, hsnap, hf⟩
  have hqueues : ∀ q ∈ snap.queues, q ∈ queuesOf S := fun q hq => ⟨_, hsnap, hq⟩
  have htidy₁ : n₁.Tidy S := ⟨h.flows, h.queues⟩
  obtain ⟨n₂, hrun₂, htidy₂, hview₂⟩ := applySnapshotFlows_offers hS now htidy₁ n₁.tombstones hflows
  obtain ⟨n₃, hrun₃, htidy₃, hview₃⟩ :=
    applySnapshotQueues_offers hS now htidy₂ n₁.tombstones hqueues (hS.urls snap hsnap)
  have hresult : n.apply validUrl tenant (.snapshot snap, now) = n₃ := by
    have hrun : applyCatalogSnapshot validUrl now snap n = (.ok ⟨⟩, n₃) :=
      (Prog.bind_ok hrun₂).trans hrun₃
    exact congrArg Prod.snd hrun
  refine ⟨hresult ▸ htidy₃, ?_⟩
  have hgone : n₂.tombstones = n₁.tombstones := congrArg Replica.gone hview₂
  have hmerged : n₁.tombstones = Keys.merge n.view.gone snap.tombstones :=
    congrFun (congrFun mergeRemote_eq_merge _) _
  rw [hresult, hview₃, hview₂, hgone, ← offerRows_append, hmerged]
  rfl

/-- **Applying a change is a step of the table.** -/
theorem CatalogNode.Tidy.apply_view
    {ch : CatalogChange} (hch : ch ∈ S) (tenant : String) (now : Int) :
    (n.apply validUrl tenant (ch, now)).Tidy S ∧
      (n.apply validUrl tenant (ch, now)).view =
        catalogKeys.step n.view now (ch.toTable tenant) := by
  cases ch with
  | flow f => exact h.upsertFlow hS now ⟨_, hch, mem_singleton.mpr rfl⟩
  | queue q => exact h.upsertQueue hS now ⟨_, hch, mem_singleton.mpr rfl⟩
  | deleteFlow flowId =>
    obtain ⟨htidy, hrows⟩ := h.flows.erase (fun _ => sameVictim_iff) rfl
    refine ⟨⟨htidy, h.queues⟩, ?_⟩
    exact congrArg (Replica.mk · _) ((congrArg (Keys.both · _) hrows).trans
      (sum_remove_inl (tenant, flowId)).symm)
  | deleteQueue queueId =>
    obtain ⟨htidy, hrows⟩ := h.queues.erase (fun _ => sameVictim_iff) rfl
    refine ⟨⟨h.flows, htidy⟩, ?_⟩
    exact congrArg (Replica.mk · _) ((congrArg (Keys.both _) hrows).trans
      (sum_remove_inr (tenant, queueId)).symm)
  | snapshot snap => exact h.applySnapshot hS hch now

theorem CatalogNode.Tidy.applyAll_view (hes : ∀ e ∈ es, e.1 ∈ S) :
    (n.applyAll validUrl tenant es).view =
      catalogKeys.run n.view (es.map fun e => (e.1.toTable tenant, e.2)) := by
  induction es generalizing n with
  | nil => rfl
  | cons e es ih =>
    obtain ⟨he, hrest⟩ := forall_mem_cons.mp hes
    obtain ⟨htidy, hview⟩ := h.apply_view hS he tenant e.2
    have hrun := ih htidy hrest
    rw [hview] at hrun
    exact hrun

end

end View

/-! ## Convergence -/

/-- The changes of `S` as changes of the table. -/
def tableChanges (tenant : String) (S : Set CatalogChange) :
    Set (Change CatalogRow CatalogTarget Uuid Int) := CatalogChange.toTable tenant '' S

/-- The node applies the changes of `S`, in some order, each at least once and no others. -/
structure AppliesAll (S : Set CatalogChange) (es : List (CatalogChange × Int)) : Prop where
  sound : ∀ e ∈ es, e.1 ∈ S
  complete : ∀ ch ∈ S, ∃ e ∈ es, e.1 = ch

/-- Each delete is applied no earlier, on the clock of the node, than the rows with its id were
stamped. -/
def DeletesInTime (tenant : String) (S : Set CatalogChange) (es : List (CatalogChange × Int)) :
    Prop :=
  ∀ e ∈ es, catalogKeys.InTime (tableChanges tenant S) e.2 (e.1.toTable tenant)

section Converges

variable {validUrl : String → Bool} {tenant : String} {S : Set CatalogChange}
  {es es' : List (CatalogChange × Int)}

theorem AppliesAll.toTable (h : AppliesAll S es) (htime : DeletesInTime tenant S es) :
    catalogKeys.Applies (tableChanges tenant S) (es.map fun e => (e.1.toTable tenant, e.2)) where
  sound := by
    intro _ hmem
    obtain ⟨e, he, rfl⟩ := mem_map.mp hmem
    exact ⟨e.1, h.sound e he, rfl⟩
  complete := by
    rintro ch ⟨ch, hch, rfl⟩
    obtain ⟨e, he, rfl⟩ := h.complete ch hch
    exact ⟨_, mem_map_of_mem he, rfl⟩
  inTime := by
    intro _ hmem
    obtain ⟨e, he, rfl⟩ := mem_map.mp hmem
    exact htime e he

theorem applyAll_empty_rows (hS : WellFormed validUrl S) (hes : AppliesAll S es) :
    (CatalogNode.empty.applyAll validUrl tenant es).view.rows =
      (catalogKeys.run Keys.empty (es.map fun e => (e.1.toTable tenant, e.2))).rows := by
  rw [catalogNode_empty_tidy.applyAll_view hS hes.sound, catalogNode_empty_view]

/-- **Nodes that applied the same changes hold the same rows**, if every slot is settled. -/
theorem catalog_converges (hS : WellFormed validUrl S)
    (hsettled : ∀ k, catalogKeys.Settled (tableChanges tenant S) k) (hes : AppliesAll S es)
    (htime : DeletesInTime tenant S es) (hes' : AppliesAll S es')
    (htime' : DeletesInTime tenant S es') :
    (∀ f, f ∈ (CatalogNode.empty.applyAll validUrl tenant es).flows ↔
      f ∈ (CatalogNode.empty.applyAll validUrl tenant es').flows) ∧
    (∀ q, q ∈ (CatalogNode.empty.applyAll validUrl tenant es).queues ↔
      q ∈ (CatalogNode.empty.applyAll validUrl tenant es').queues) := by
  have hrows : (CatalogNode.empty.applyAll validUrl tenant es).view.rows =
      (CatalogNode.empty.applyAll validUrl tenant es').view.rows := by
    rw [applyAll_empty_rows hS hes, applyAll_empty_rows hS hes']
    exact Keys.converges hsettled (hes.toTable htime) (hes'.toTable htime')
  have hmem := fun r => Set.ext_iff.mp hrows r
  exact ⟨fun f => hmem (.inl f), fun q => hmem (.inr q)⟩

end Converges

/-! ### A queue that is deleted and a profile that is updated -/

def mailProfile (parallelism : UInt32) (updatedAtMs : Int) : CatalogFlow :=
  ⟨⟨5, "default", "mail", parallelism, 0, 1⟩, updatedAtMs⟩

def ordersRow : CatalogQueue := ⟨ordersQueue, false, 15⟩

/-- Two versions of a profile, a snapshot with a queue, and the delete of the queue. -/
def mailChanges : List CatalogChange :=
  [.flow (mailProfile 1 10), .flow (mailProfile 2 20), .snapshot ⟨[], [ordersRow], []⟩,
    .deleteQueue 7]

theorem mailChanges_wellFormed : WellFormed (fun _ => true) {ch | ch ∈ mailChanges} := by
  have hflows : ∀ f, f ∈ flowsOf {ch | ch ∈ mailChanges} ↔
      f ∈ mailChanges.flatMap CatalogChange.flows := fun _ => mem_flatMap.symm
  have hqueues : ∀ q, q ∈ queuesOf {ch | ch ∈ mailChanges} ↔
      q ∈ mailChanges.flatMap CatalogChange.queues := fun _ => mem_flatMap.symm
  refine ⟨?_, ?_, ?_, ?_, fun _ _ _ _ => rfl⟩ <;> simp only [Coherent, hflows, hqueues]
  all_goals decide +kernel

theorem mailChanges_table {ch : Change CatalogRow CatalogTarget Uuid Int}
    (h : ch ∈ tableChanges "default" {ch | ch ∈ mailChanges}) :
    ch = .put (.inl (mailProfile 1 10)) ∨ ch = .put (.inl (mailProfile 2 20)) ∨
      ch = .offer [.inr ordersRow] [] ∨ ch = .remove (.inr ("default", 7)) := by
  obtain ⟨ch, hch, rfl⟩ := h
  simp only [mailChanges, Set.mem_ofPred_eq, mem_cons, not_mem_nil, or_false] at hch
  rcases hch with rfl | rfl | rfl | rfl
  · exact .inl rfl
  · exact .inr (.inl rfl)
  · exact .inr (.inr (.inl rfl))
  · exact .inr (.inr (.inr rfl))

theorem mailChanges_carried {r : CatalogRow}
    (h : catalogKeys.Carried (tableChanges "default" {ch | ch ∈ mailChanges}) r) :
    r = .inl (mailProfile 1 10) ∨ r = .inl (mailProfile 2 20) ∨ r = .inr ordersRow := by
  obtain ⟨ch, hch, hcarries⟩ := h
  rcases mailChanges_table hch with rfl | rfl | rfl | rfl
  · exact .inl hcarries
  · exact .inr (.inl hcarries)
  · exact .inr (.inr (mem_singleton.mp hcarries.1))
  · exact hcarries.elim

theorem mailChanges_settled (k : (String × Uuid) ⊕ (String × String)) :
    catalogKeys.Settled (tableChanges "default" {ch | ch ∈ mailChanges}) k := by
  by_cases hk : catalogKeys.slot (.inl (mailProfile 2 20)) = k
  · refine .inl ⟨_, hk,
      ⟨_, ⟨.flow (mailProfile 2 20), by simp [mailChanges], rfl⟩, rfl⟩, ?_, ?_, ?_⟩
    · intro r hr hslot
      rcases mailChanges_carried hr with rfl | rfl | rfl
      · exact .inl (by decide)
      · exact .inr rfl
      · cases hslot
    · intro target htarget
      rcases mailChanges_table htarget with h | h | h | h <;> cases h
      decide
    · intro vs tombstones hoffer d hd
      rcases mailChanges_table hoffer with h | h | h | h <;> cases h
      cases hd
  · refine .inr fun r hr hslot => ?_
    rcases mailChanges_carried hr with rfl | rfl | rfl
    · exact absurd hslot hk
    · exact absurd hslot hk
    · refine ⟨fun hput => ?_, ⟨.deleteQueue 7, by simp [mailChanges], rfl⟩⟩
      rcases mailChanges_table hput with h | h | h | h <;> cases h

theorem mailChanges_inTime (h : ∀ e ∈ es, 20 ≤ e.2) :
    DeletesInTime "default" {ch | ch ∈ mailChanges} es := by
  intro e he
  unfold Keys.InTime
  split
  · intro r hr _
    have hstamp : catalogKeys.stamp r ≤ 20 := by
      rcases mailChanges_carried hr with rfl | rfl | rfl <;> decide
    exact hstamp.trans (h e he)
  · trivial

/-- Two nodes get the changes in opposite orders, one of them some changes twice. -/
theorem mailChanges_converge :
    (CatalogNode.empty.applyAll (fun _ => true) "default"
      (mailChanges.map fun ch => (ch, 20))).flows ≠ [] ∧
    ∀ f, f ∈ (CatalogNode.empty.applyAll (fun _ => true) "default"
        (mailChanges.map fun ch => (ch, 20))).flows ↔
      f ∈ (CatalogNode.empty.applyAll (fun _ => true) "default"
        ((mailChanges.reverse ++ mailChanges).map fun ch => (ch, 30))).flows := by
  have hall : ∀ (chs : List CatalogChange) now, (∀ ch, ch ∈ chs ↔ ch ∈ mailChanges) →
      AppliesAll {ch | ch ∈ mailChanges} (chs.map fun ch => (ch, now)) := by
    refine fun chs now hsame => ⟨fun e he => ?_, fun ch hch => ?_⟩
    · obtain ⟨ch, hch, rfl⟩ := mem_map.mp he
      exact (hsame ch).mp hch
    · exact ⟨_, mem_map_of_mem ((hsame ch).mpr hch), rfl⟩
  have htimes : ∀ (chs : List CatalogChange) now, 20 ≤ now →
      DeletesInTime "default" {ch | ch ∈ mailChanges} (chs.map fun ch => (ch, now)) := by
    refine fun chs now hnow => mailChanges_inTime fun e he => ?_
    obtain ⟨ch, -, rfl⟩ := mem_map.mp he
    exact hnow
  refine ⟨by decide +kernel, (catalog_converges mailChanges_wellFormed mailChanges_settled
    (hall mailChanges 20 fun _ => Iff.rfl) (htimes _ 20 le_rfl) (hall _ 30 fun ch => ?_)
    (htimes _ 30 (by decide))).1⟩
  rw [mem_append, mem_reverse, or_self]

/-! ### Where nodes part -/

/-- Of two upserts with one stamp the later arrival stays, and an upsert older than the delete
brings the row back when it arrives after it. -/
theorem equal_stamps_and_late_upsert_diverge :
    (let one := CatalogChange.flow (mailProfile 1 10)
     let two := CatalogChange.flow (mailProfile 2 10)
     (CatalogNode.empty.applyAll (fun _ => true) "default" [(one, 20), (two, 20)]).flows =
         [mailProfile 2 10] ∧
       (CatalogNode.empty.applyAll (fun _ => true) "default" [(two, 20), (one, 20)]).flows =
         [mailProfile 1 10]) ∧
    (let upsert := CatalogChange.flow (mailProfile 1 10)
     let delete := CatalogChange.deleteFlow 5
     (CatalogNode.empty.applyAll (fun _ => true) "default"
       [(upsert, 20), (delete, 20)]).flows = [] ∧
       (CatalogNode.empty.applyAll (fun _ => true) "default" [(delete, 20), (upsert, 20)]).flows =
         [mailProfile 1 10]) := by
  decide +kernel

end BetterMQ
