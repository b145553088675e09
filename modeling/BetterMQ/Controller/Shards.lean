import BetterMQ.Lib.Run
import BetterMQ.Controller.Placement
import BetterMQ.Lib.Slots

/-!
# Shard placements over runs of controller commands

What every command of the controller does to the placement of a shard is said once, in
`applyCommand_commanded`; the invariants of placements and of terms are read off it.

* **`placements_ok_iff`** — the placements stay well formed along a run exactly when leadership is
  only given to replicas and no rebalance removes the last replica;
* **`terms_safe_iff`** — leaders and terms stay in step along a run exactly when no rebalance moves
  leadership at the last usable term;
* **`applyCommand_view`** — on one shard a command does what the cluster model says.
-/

namespace BetterMQ.Controller

open BetterMQ AList List Option

/-! ## The machine -/

/-- A successful command. -/
def commandStep (s : ControllerState) (c : ControllerCommand) : Option ControllerState :=
  (applyCommand s c).toOption

variable {s s' s₀ : ControllerState} {c : ControllerCommand} {p : ShardPlacement} {shard k : Nat}
  {config : ClusterConfig} {shardCount : Nat} {shardTerms : Table Nat Nat}
  {scheduler : Option SchedulerLease} {P : ShardPlacement → Prop} {replicas : List Uuid}

theorem commandStep_eq_some :
    commandStep s c = some s' ↔ applyCommand s c = .ok s' := toOption_eq_some

/-- The runs of the controller: any successful commands. -/
abbrev CommandRun := AnyRun commandStep

/-! ## What a command does to a placement -/

/-- The learners after `BeginRebalance` with this node to add. -/
def ShardPlacement.withLearner (p : ShardPlacement) (add : Option Uuid) : ShardPlacement :=
  { p with
    learners := match add with
      | some id => if id ∉ p.replicas ∧ id ∉ p.learners then p.learners ++ [id] else p.learners
      | none => p.learners }

/-- `PromoteLearner`. -/
def ShardPlacement.promote (p : ShardPlacement) (nodeId : Uuid) : ShardPlacement :=
  { p with
    learners := p.learners.filter (· ≠ nodeId)
    replicas := if nodeId ∈ p.replicas then p.replicas else p.replicas ++ [nodeId]
    isr := if nodeId ∈ p.isr then p.isr else p.isr ++ [nodeId] }

/-- The nodes that completing the rebalance of a shard takes out. -/
def ControllerState.removing (s : ControllerState) (shard : Nat) : List Uuid :=
  match s.rebalance.lookup shard with
  | some op => op.removing
  | none => []

/-- The placement of `shard` after a successful command. -/
def nextPlacement (s : ControllerState) (shard : Nat) (p : ShardPlacement) :
    ControllerCommand → ShardPlacement
  | .acquireShardLeadership k leaderId =>
    if k = shard then { p with leaderTerm := p.leaderTerm + 1, leaderId := leaderId } else p
  | .beginRebalance k add _ => if k = shard then p.withLearner add else p
  | .promoteLearner k nodeId => if k = shard then p.promote nodeId else p
  | .completeRebalance k =>
    if k = shard then (s.removing shard).foldl (ShardPlacement.removeNode shard) p else p
  | _ => p

theorem placement_eq_ok : s.placement shard = .ok p ↔ s.shards.lookup shard = some p := by
  unfold ControllerState.placement
  cases s.shards.lookup shard <;> simp [invalid]

/-- The rebalances after a successful command. -/
def nextRebalance (s : ControllerState) : ControllerCommand → Table Nat RebalanceOp
  | .beginRebalance k add remove =>
    let generation := ((s.rebalance.lookup k).map fun op => satAdd64 op.generation 1).getD 1
    s.rebalance.insert k ⟨k, add.toList, remove.toList, generation⟩
  | .completeRebalance k => s.rebalance.erase k
  | _ => s.rebalance

/-- The nodes that a rebalance of `shard` takes out, after a successful command. -/
def nextRemoving (s : ControllerState) (shard : Nat) : ControllerCommand → List Uuid
  | .beginRebalance k _ remove => if k = shard then remove.toList else s.removing shard
  | .completeRebalance k => if k = shard then [] else s.removing shard
  | _ => s.removing shard

def nextMinIsr (s : ControllerState) : ControllerCommand → Nat
  | .setReplicationPolicy factor minIsr => minIsrFor (max factor 1) minIsr
  | _ => s.minIsr

/-- What a successful command leaves of the placements, the rebalances and the in-sync minimum. -/
structure Commanded (s s' : ControllerState) (c : ControllerCommand) : Prop where
  placement : ∀ shard,
    s'.shards.lookup shard = (s.shards.lookup shard).map fun p => nextPlacement s shard p c
  /-- A new leader is a node, and a new term is below the reserved one. -/
  acquired : ∀ shard leaderId p, c = .acquireShardLeadership shard leaderId →
    s.shards.lookup shard = some p → s.hasNode leaderId = true ∧ p.leaderTerm + 1 < maxU64
  rebalance : s'.rebalance = nextRebalance s c
  minIsr : s'.minIsr = nextMinIsr s c

theorem commanded_of_frame (h : applyCommand s c = .ok s') (hc : c.part ≠ .placement) :
    Commanded s s' c := by
  obtain ⟨hshards, hrebalance, hminIsr⟩ := (applyCommand_frame h).1 hc
  cases c with
  | acquireShardLeadership | beginRebalance | promoteLearner | completeRebalance
  | setReplicationPolicy => exact (hc rfl).elim
  | _ =>
    refine ⟨fun shard => ?_, nofun, hrebalance, hminIsr⟩
    rw [hshards]
    exact (map_id' (x := s.shards.lookup shard)).symm

/-- A command that changes the placement of one shard. -/
theorem lookup_nextPlacement {q : ShardPlacement} (hp : s.shards.lookup k = some p)
    (hq : nextPlacement s₀ k p c = q)
    (hother : ∀ shard p', k ≠ shard → nextPlacement s₀ shard p' c = p') (shard : Nat) :
    (s.setPlacement k q).shards.lookup shard
      = (s.shards.lookup shard).map fun p' => nextPlacement s₀ shard p' c := by
  unfold ControllerState.setPlacement
  by_cases hk : k = shard
  · subst hk
    rw [lookup_insert, hp, map_some, hq]
  · rw [lookup_insert_ne (Ne.symm hk)]
    simp [hother shard _ hk]

theorem checkedAdd64_filter {term next : Nat}
    (h : (checkedAdd64 term 1).filter (· ≠ maxU64) = some next) :
    next = term + 1 ∧ term + 1 < maxU64 := by
  obtain ⟨hadd, hne⟩ := filter_eq_some_iff.mp h
  unfold checkedAdd64 at hadd
  split at hadd
  · next hle =>
    cases hadd
    have hne' : term + 1 ≠ maxU64 := by simpa using hne
    exact ⟨rfl, lt_of_le_of_ne hle hne'⟩
  · cases hadd

theorem completeRebalance_commanded (h : applyCommand s (.completeRebalance shard) = .ok s') :
    Commanded s s' (.completeRebalance shard) := by
  rw [applyCommand] at h
  split at h
  · next hnone =>
    cases h
    have hremoving : s.removing shard = [] := by simp only [ControllerState.removing, hnone]
    refine ⟨fun k => ?_, by rintro _ _ _ ⟨⟩, ?_, rfl⟩
    · by_cases hk : shard = k
      · subst hk
        simp [nextPlacement, hremoving]
      · simp [nextPlacement, hk]
    · exact AList.ext (kerase_of_notMem_keys (lookup_eq_none.mp hnone)).symm
  · next op hop =>
    have hremoving : s.removing shard = op.removing := by
      simp only [ControllerState.removing, hop]
    dsimp only at h
    split at h
    · next hnone =>
      cases h
      refine ⟨fun k => ?_, by rintro _ _ _ ⟨⟩, rfl, rfl⟩
      by_cases hk : shard = k
      · subst hk
        rw [hnone]
        rfl
      · simp [nextPlacement, hk]
    · next p hp =>
      cases h
      exact ⟨lookup_nextPlacement hp
        ((if_pos rfl).trans (by rw [hremoving])) fun _ _ hk => if_neg hk,
        by rintro _ _ _ ⟨⟩, rfl, rfl⟩

/-- **What a successful command does to the placements.** -/
theorem applyCommand_commanded (h : applyCommand s c = .ok s') : Commanded s s' c := by
  cases c with
  | acquireShardLeadership shard leaderId =>
    rw [applyCommand] at h
    split at h
    · cases h
    · next hnode =>
      obtain ⟨p, hp, hrest⟩ := bind_eq_ok h
      rw [placement_eq_ok] at hp
      split at hrest
      · next term hterm =>
        cases hrest
        obtain ⟨rfl, hlt⟩ := checkedAdd64_filter hterm
        refine ⟨lookup_nextPlacement hp (if_pos rfl) fun _ _ hk => if_neg hk, ?_, rfl, rfl⟩
        intro k id p' heq hp'
        cases heq
        cases hp.symm.trans hp'
        exact ⟨by simpa using hnode, hlt⟩
      · cases hrest
  | beginRebalance shard add remove =>
    obtain ⟨p, hp, hrest⟩ := bind_eq_ok h
    rw [placement_eq_ok] at hp
    cases hrest
    exact ⟨lookup_nextPlacement hp (if_pos rfl) fun _ _ hk => if_neg hk,
      by rintro _ _ _ ⟨⟩, rfl, rfl⟩
  | promoteLearner shard nodeId =>
    obtain ⟨p, hp, hrest⟩ := bind_eq_ok h
    rw [placement_eq_ok] at hp
    cases hrest
    exact ⟨lookup_nextPlacement hp (if_pos rfl) fun _ _ hk => if_neg hk,
      by rintro _ _ _ ⟨⟩, rfl, rfl⟩
  | completeRebalance shard => exact completeRebalance_commanded h
  | setReplicationPolicy factor minIsr =>
    cases h
    exact ⟨fun _ => (map_id' (x := _)).symm, by rintro _ _ _ ⟨⟩, rfl, rfl⟩
  | _ => exact commanded_of_frame h fun hpart => by cases hpart

theorem Commanded.removing (h : Commanded s s' c) (shard : Nat) :
    s'.removing shard = nextRemoving s shard c := by
  rw [ControllerState.removing, h.rebalance]
  cases c with
  | beginRebalance k =>
    by_cases hk : k = shard
    · simp [nextRebalance, nextRemoving, hk]
    · simp only [nextRebalance, nextRemoving, hk, if_false, lookup_insert_ne (Ne.symm hk)]
      rfl
  | completeRebalance k =>
    by_cases hk : k = shard
    · simp [nextRebalance, nextRemoving, hk]
    · simp only [nextRebalance, nextRemoving, hk, if_false, lookup_erase_ne (Ne.symm hk)]
      rfl
  | _ => rfl

/-! ## Well-formed placements -/

/-- A placement names at least one replica, none twice; its leader and its in-sync nodes are
replicas, and its learners are not. -/
structure PlacementOk (p : ShardPlacement) : Prop where
  nonempty : p.replicas ≠ []
  nodup : p.replicas.Nodup
  leader : p.leaderId ∈ p.replicas
  isr : ∀ id ∈ p.isr, id ∈ p.replicas
  learners : ∀ id ∈ p.learners, id ∉ p.replicas

def PlacementsOk (s : ControllerState) : Prop :=
  ∀ shard p, s.shards.lookup shard = some p → PlacementOk p

/-- The command keeps the placements well formed: leadership goes to a replica, and a rebalance
leaves a replica. -/
def CommandOk (s : ControllerState) : ControllerCommand → Prop
  | .acquireShardLeadership shard leaderId =>
    ∀ p, s.shards.lookup shard = some p → leaderId ∈ p.replicas
  | .completeRebalance shard =>
    ∀ p, s.shards.lookup shard = some p → ∃ id ∈ p.replicas, id ∉ s.removing shard
  | _ => True

theorem PlacementOk.withLearner (h : PlacementOk p) (add : Option Uuid) :
    PlacementOk (p.withLearner add) := by
  refine ⟨h.nonempty, h.nodup, h.leader, h.isr, ?_⟩
  intro id hid
  cases add with
  | none => exact h.learners id hid
  | some new =>
    unfold ShardPlacement.withLearner at hid
    dsimp only at hid
    split at hid
    · next hnew =>
      rcases mem_snoc.mp hid with hold | rfl
      · exact h.learners id hold
      · exact hnew.1
    · exact h.learners id hid

theorem mem_insertNew {ids : List Uuid} {id new : Uuid} :
    id ∈ (if new ∈ ids then ids else ids ++ [new]) ↔ id ∈ ids ∨ id = new := by
  split
  · next hmem =>
    constructor
    · exact .inl
    · rintro (hid | rfl)
      · exact hid
      · exact hmem
  · simp

theorem PlacementOk.promote (h : PlacementOk p) (nodeId : Uuid) :
    PlacementOk (p.promote nodeId) := by
  have hmem : ∀ id, id ∈ (p.promote nodeId).replicas ↔ id ∈ p.replicas ∨ id = nodeId :=
    fun id => mem_insertNew
  refine ⟨?_, ?_, (hmem _).mpr (.inl h.leader), ?_, ?_⟩
  · exact ne_nil_of_mem ((hmem nodeId).mpr (.inr rfl))
  · unfold ShardPlacement.promote
    split
    · exact h.nodup
    · next hnew =>
      exact h.nodup.append (nodup_singleton _) (disjoint_singleton.mpr hnew)
  · intro id hid
    rcases mem_insertNew.mp hid with hold | rfl
    · exact (hmem id).mpr (.inl (h.isr id hold))
    · exact (hmem id).mpr (.inr rfl)
  · intro id hid hreplica
    obtain ⟨hlearner, hne⟩ := mem_filter.mp hid
    rcases (hmem id).mp hreplica with hold | rfl
    · exact h.learners id hlearner hold
    · simp at hne

/-! ### Removing nodes -/

theorem pickLeader_mem {next : Uuid} (h : pickLeader replicas shard = some next) :
    next ∈ replicas := mem_of_getElem? h

theorem pickLeader_eq_none : pickLeader replicas shard = none ↔ replicas = [] := by
  unfold pickLeader
  rw [getElem?_eq_none_iff]
  constructor
  · intro hle
    by_contra hne
    have hpos : 0 < replicas.length := length_pos_iff.mpr hne
    have := Nat.mod_lt shard hpos
    omega
  · rintro rfl
    simp

theorem removeNode_replicas (shard : Nat) (p : ShardPlacement) (id : Uuid) :
    (p.removeNode shard id).replicas = p.replicas.filter (· ≠ id) ∧
      (p.removeNode shard id).isr = p.isr.filter (· ≠ id) ∧
      (p.removeNode shard id).learners = p.learners.filter (· ≠ id) := by
  unfold ShardPlacement.removeNode
  dsimp only
  split
  · split <;> exact ⟨rfl, rfl, rfl⟩
  · exact ⟨rfl, rfl, rfl⟩

/-- What removals keep: everything but that a replica is left. -/
structure PlacementKept (p : ShardPlacement) : Prop where
  nodup : p.replicas.Nodup
  leader : p.replicas ≠ [] → p.leaderId ∈ p.replicas
  isr : ∀ id ∈ p.isr, id ∈ p.replicas
  learners : ∀ id ∈ p.learners, id ∉ p.replicas

theorem PlacementKept.removeNode (h : PlacementKept p) (shard : Nat) (id : Uuid) :
    PlacementKept (p.removeNode shard id) := by
  obtain ⟨hreplicas, hisr, hlearners⟩ := removeNode_replicas shard p id
  refine ⟨?_, ?_, ?_, ?_⟩
  · rw [hreplicas]
    exact h.nodup.filter _
  · rw [hreplicas]
    intro hleft
    unfold ShardPlacement.removeNode
    dsimp only
    split
    · split
      · next next hnext => exact pickLeader_mem hnext
      · next hnone => exact absurd (pickLeader_eq_none.mp hnone) hleft
    · next hother =>
      have hne : p.replicas ≠ [] := by
        rintro hnil
        rw [hnil] at hleft
        exact hleft rfl
      exact mem_filter.mpr ⟨h.leader hne, by simpa using hother⟩
  · rw [hisr, hreplicas]
    intro x hx
    obtain ⟨hmem, hne⟩ := mem_filter.mp hx
    exact mem_filter.mpr ⟨h.isr x hmem, hne⟩
  · rw [hlearners, hreplicas]
    intro x hx hreplica
    exact h.learners x (mem_filter.mp hx).1 (mem_filter.mp hreplica).1

theorem removeAll_kept (h : PlacementKept p) (shard : Nat) (removing : List Uuid) :
    PlacementKept (removing.foldl (ShardPlacement.removeNode shard) p) ∧
      ∀ id, id ∈ (removing.foldl (ShardPlacement.removeNode shard) p).replicas ↔
        id ∈ p.replicas ∧ id ∉ removing := by
  induction removing generalizing p with
  | nil => exact ⟨h, fun id => by simp⟩
  | cons x xs ih =>
    obtain ⟨hkept, hmem⟩ := ih (h.removeNode shard x)
    refine ⟨hkept, fun id => ?_⟩
    rw [foldl_cons, hmem, (removeNode_replicas shard p x).1, mem_filter, and_assoc]
    simp

theorem PlacementOk.kept (h : PlacementOk p) : PlacementKept p :=
  ⟨h.nodup, fun _ => h.leader, h.isr, h.learners⟩

theorem PlacementKept.ok_iff (h : PlacementKept p) : PlacementOk p ↔ p.replicas ≠ [] :=
  ⟨PlacementOk.nonempty, fun hne => ⟨hne, h.nodup, h.leader hne, h.isr, h.learners⟩⟩

theorem Commanded.forall_placement (h : Commanded s s' c) :
    (∀ shard p, s'.shards.lookup shard = some p → P p) ↔
      ∀ shard p, s.shards.lookup shard = some p → P (nextPlacement s shard p c) := by
  constructor
  · intro hok shard p hp
    refine hok shard _ ?_
    rw [h.placement, hp, map_some]
  · intro hok shard p' hp'
    rw [h.placement] at hp'
    obtain ⟨p, hp, rfl⟩ := map_eq_some_iff.mp hp'
    exact hok shard p hp

variable {f : Nat → ShardPlacement → ShardPlacement} {voters : List Uuid} {rf : Nat}
  {commands : List ControllerCommand}

section

variable (hold : ∀ shard p, s.shards.lookup shard = some p → P p)

include hold

/-- A change of one placement keeps what holds of all exactly when it keeps it of that one. -/
theorem forall_changed_iff {Q : ShardPlacement → Prop}
    (hk : ∀ p, s.shards.lookup k = some p → (P (f k p) ↔ Q p)) :
    (∀ shard p, s.shards.lookup shard = some p → P (if k = shard then f shard p else p)) ↔
      ∀ p, s.shards.lookup k = some p → Q p := by
  constructor
  · intro hnext p hp
    have hnew := hnext k p hp
    rw [if_pos rfl] at hnew
    exact (hk p hp).mp hnew
  · intro hone shard p hp
    split
    · next heq =>
      subst heq
      exact (hk p hp).mpr (hone p hp)
    · exact hold shard p hp

theorem forall_changed (hk : ∀ p, s.shards.lookup k = some p → P (f k p)) :
    ∀ shard p, s.shards.lookup shard = some p → P (if k = shard then f shard p else p) :=
  (forall_changed_iff hold fun _ _ => Iff.rfl).mpr hk

end

/-- **One command** keeps well-formed placements well formed exactly when it is one that
`CommandOk` allows. -/
theorem Commanded.placementsOk_iff (h : Commanded s s' c) (hok : PlacementsOk s) :
    PlacementsOk s' ↔ CommandOk s c := by
  refine h.forall_placement.trans ?_
  cases c with
  | acquireShardLeadership k leaderId =>
    refine forall_changed_iff hok fun p hp => ⟨PlacementOk.leader, fun hleader => ?_⟩
    have hold := hok k p hp
    exact ⟨hold.nonempty, hold.nodup, hleader, hold.isr, hold.learners⟩
  | beginRebalance k add remove =>
    exact iff_of_true (forall_changed hok fun p hp => (hok k p hp).withLearner add) trivial
  | promoteLearner k nodeId =>
    exact iff_of_true (forall_changed hok fun p hp => (hok k p hp).promote nodeId) trivial
  | completeRebalance k =>
    -- the removals keep everything else, so only an emptied replica list is a violation
    refine forall_changed_iff hok fun p hp => ?_
    obtain ⟨hkept, hmem⟩ := removeAll_kept (hok k p hp).kept k (s.removing k)
    rw [hkept.ok_iff]
    constructor
    · intro hne
      obtain ⟨id, hid⟩ := exists_mem_of_ne_nil _ hne
      exact ⟨id, (hmem id).mp hid⟩
    · rintro ⟨id, hid⟩
      exact ne_nil_of_mem ((hmem id).mpr hid)
  | _ => exact iff_of_true hok trivial

/-! ### The bootstrap state -/

section Bootstrap

variable {nodes : List DataNodeRecord}

/-- **`place_replicas` places at least one replica, and none twice.** -/
theorem placeReplicas_ok (shard rf : Nat) (hnodup : (nodes.map fun n => n.id).Nodup)
    (hbrokers : nodes.filter (fun n => n.broker) ≠ []) :
    (placeReplicas nodes shard rf).Nodup ∧ placeReplicas nodes shard rf ≠ [] := by
  obtain ⟨ring, n, -, hring, hrf, hn, heq⟩ := placeReplicas_ring shard rf hnodup hbrokers
  obtain ⟨hlen, hdistinct, -⟩ := passes_spec hring hrf
  rw [← heq] at hlen hdistinct
  refine ⟨hdistinct, ne_nil_of_length_pos ?_⟩
  have := length_pos_iff.mpr hbrokers
  omega

theorem lookup_fill {κ α : Type} [DecidableEq κ] (f : κ → α) (keys : List κ) (t : Table κ α)
    (k : κ) : (keys.foldl (fun table key => table.insert key (f key)) t).lookup k
      = if k ∈ keys then some (f k) else t.lookup k := by
  induction keys generalizing t with
  | nil => simp
  | cons key keys ih =>
    rw [foldl_cons, ih]
    by_cases hmem : k ∈ keys
    · simp [hmem]
    · by_cases hkey : k = key
      · subst hkey
        simp [hmem]
      · simp [hmem, hkey]

theorem bootstrapDataNodes_entries (hbroker : ∀ n ∈ nodes, n.broker = true) :
    ∀ e ∈ (bootstrapDataNodes voters nodes).entries, e.2.id = e.1 ∧ e.2.broker = true := by
  refine List.foldlRecOn (motive := fun t : Table Uuid DataNodeRecord =>
    ∀ e ∈ t.entries, e.2.id = e.1 ∧ e.2.broker = true) _ _ (by simp) ?_
  intro t ht node hnode e he
  rcases mem_cons.mp he with rfl | hold
  · exact ⟨rfl, hbroker node hnode⟩
  · exact ht e ((kerase_sublist _ _).subset hold)

/-- The data nodes of a fresh cluster. -/
def bootstrapList (config : ClusterConfig) : List DataNodeRecord :=
  nodeList (bootstrapDataNodes (initialControllerVoters (provisionalNodes config.nodes))
    (provisionalNodes config.nodes))

section

variable (h : ControllerState.fromV1 config shardCount shardTerms scheduler = .ok s)

include h

theorem fromV1_shards (shard : Nat) :
    s.shards.lookup shard = if shard < max shardCount 1 then
      some (initialPlacement (bootstrapList config)
        (replicationPolicy (bootstrapList config).length).1
        config.nodeId shardTerms shard) else none := by
  obtain ⟨nodes, -, hstate⟩ := bind_eq_ok h
  cases hstate
  refine (lookup_fill _ _ _ shard).trans ?_
  simp only [mem_range, lookup_empty]
  rfl

theorem fromV1_removing (shard : Nat) : s.removing shard = [] := by
  obtain ⟨nodes, -, hstate⟩ := bind_eq_ok h
  cases hstate
  rfl

omit h in
theorem nodeList_perm (table : Table Uuid DataNodeRecord) :
    (nodeList table).Perm (table.entries.map fun e => e.2) := perm_insertionSort _ _

omit h in
theorem bootstrapList_ok (config : ClusterConfig) :
    ((bootstrapList config).map fun n => n.id).Nodup ∧
      (∀ n ∈ bootstrapList config, n.broker = true) := by
  set table := bootstrapDataNodes (initialControllerVoters (provisionalNodes config.nodes))
    (provisionalNodes config.nodes)
  have hentries : ∀ e ∈ table.entries, e.2.id = e.1 ∧ e.2.broker = true := by
    apply bootstrapDataNodes_entries
    intro n hn
    obtain ⟨c, -, rfl⟩ := mem_map.mp hn
    rfl
  constructor
  · refine ((nodeList_perm table).map _).nodup_iff.mpr ?_
    have hkeys : (table.entries.map fun e => e.2).map (fun n => n.id) = table.keys := by
      rw [List.map_map]
      exact map_congr_left fun e he => (hentries e he).1
    rw [hkeys]
    exact table.keys_nodup
  · intro n hn
    obtain ⟨e, he, rfl⟩ := mem_map.mp ((nodeList_perm table).mem_iff.mp hn)
    exact (hentries e he).2

omit h in
theorem bootstrapDataNodes_ne_nil (hne : nodes ≠ []) :
    (bootstrapDataNodes voters nodes).entries ≠ [] := by
  obtain ⟨node, nodes, rfl⟩ := exists_cons_of_ne_nil hne
  rw [bootstrapDataNodes, foldl_cons]
  refine List.foldlRecOn (motive := fun t : Table Uuid DataNodeRecord => t.entries ≠ []) _ _ ?_ ?_
  · exact cons_ne_nil _ _
  · intro t _ node _
    exact cons_ne_nil _ _

omit h in
theorem bootstrapList_eq_nil_iff (config : ClusterConfig) :
    bootstrapList config = [] ↔ config.nodes = [] := by
  constructor
  · intro hnil
    by_contra hne
    have hprovisional : provisionalNodes config.nodes ≠ [] := by
      simpa [provisionalNodes] using hne
    have hperm := nodeList_perm (bootstrapDataNodes
      (initialControllerVoters (provisionalNodes config.nodes)) (provisionalNodes config.nodes))
    rw [show nodeList _ = [] from hnil] at hperm
    exact bootstrapDataNodes_ne_nil hprovisional (map_eq_nil_iff.mp (nil_perm.mp hperm))
  · intro hnil
    unfold bootstrapList
    rw [hnil]
    rfl

/-- **A bootstrap state is well placed** exactly when its cluster has a node. -/
theorem bootstrap_placementsOk_iff : PlacementsOk s ↔ config.nodes ≠ [] := by
  obtain ⟨hnodup, hbroker⟩ := bootstrapList_ok config
  constructor
  · -- shard 0 exists in every cluster, and without nodes it has no replica
    intro hok hnil
    have hempty : bootstrapList config = [] := (bootstrapList_eq_nil_iff config).mpr hnil
    have hzero := hok 0 _ ((fromV1_shards h 0).trans (if_pos (by omega)))
    apply hzero.nonempty
    rw [hempty]
    rfl
  · intro hne shard p hp
    rw [fromV1_shards h] at hp
    split at hp
    · cases hp
      have hbrokers : (bootstrapList config).filter (fun n => n.broker) ≠ [] := by
        rw [filter_eq_self.mpr hbroker]
        exact fun hnil => hne ((bootstrapList_eq_nil_iff config).mp hnil)
      obtain ⟨hreplicas, hsome⟩ := placeReplicas_ok shard
        (replicationPolicy (bootstrapList config).length).1 hnodup hbrokers
      refine ⟨hsome, hreplicas, ?_, fun id hid => hid, nofun⟩
      unfold initialPlacement
      dsimp only
      cases hpick : pickLeader (placeReplicas (bootstrapList config) shard
          (replicationPolicy (bootstrapList config).length).1) shard with
      | none => exact absurd (pickLeader_eq_none.mp hpick) hsome
      | some leader => exact pickLeader_mem hpick
    · cases hp

end

end Bootstrap

-- along the list: there are too many ids to try
instance decExistsId {ids : List Uuid} {P : Uuid → Prop} [DecidablePred P] :
    Decidable (∃ id ∈ ids, P id) :=
  List.decidableBEx _ _

instance (s : ControllerState) (c : ControllerCommand) : Decidable (CommandOk s c) := by
  cases c <;> unfold CommandOk <;> infer_instance

/-- **Placements over runs.** Along every run of successful commands from a bootstrap state, the
placements of all states are well formed exactly when the cluster has a node, leadership is only
given to replicas, and no rebalance removes the last replica. -/
theorem placements_ok_iff {commands : List ControllerCommand}
    (hboot : ControllerState.fromV1 config shardCount shardTerms scheduler = .ok s₀)
    (hrun : CommandRun s₀ commands s) :
    (∀ done todo t, commands = done ++ todo → CommandRun s₀ done t → PlacementsOk t) ↔
      config.nodes ≠ [] ∧ Run commandStep CommandOk s₀ commands s := by
  rw [← bootstrap_placementsOk_iff hboot]
  refine hrun.always_iff PlacementsOk CommandOk ?_
  intro t c t' hok hstep
  exact (applyCommand_commanded (commandStep_eq_some.mp hstep)).placementsOk_iff hok

/-- Four nodes; with three replicas a shard, node 4 is not one of shard 0. -/
def fourNodes : ClusterConfig where
  clusterId := 0
  nodes := [⟨1 <<< 64, "a"⟩, ⟨2 <<< 64, "b"⟩, ⟨3 <<< 64, "c"⟩, ⟨4 <<< 64, "d"⟩]
  nodeId := 1 <<< 64
  generation := 1

/-- The state they start from. -/
abbrev Booted (s₀ : ControllerState) : Prop := ControllerState.fromV1 fourNodes 1 ∅ none = .ok s₀

/-- Node 4 becomes a replica of shard 0 in place of its leader, and then its leader. -/
def moveShard : List ControllerCommand :=
  [.beginRebalance 0 (some (4 <<< 64)) (some (1 <<< 64)), .promoteLearner 0 (4 <<< 64),
    .completeRebalance 0, .acquireShardLeadership 0 (4 <<< 64)]

theorem placements_ok_of_moveShard : ∃ s₀ s, Booted s₀ ∧ CommandRun s₀ moveShard s ∧
      ∀ done todo t, moveShard = done ++ todo → CommandRun s₀ done t → PlacementsOk t := by
  obtain ⟨s₀, hboot, s, hok⟩ : ∃ s₀, Booted s₀ ∧
      ∃ s, Run commandStep CommandOk s₀ moveShard s := by decide +kernel
  have hrun : CommandRun s₀ moveShard s := hok.mono fun _ _ _ => trivial
  exact ⟨s₀, s, hboot, hrun, (placements_ok_iff hboot hrun).mpr ⟨by decide, hok⟩⟩

/-- Node 4 takes the leadership of shard 0 without being a replica of it. -/
theorem leader_outside_replicas : ∃ s₀ s p, Booted s₀ ∧
      CommandRun s₀ [.acquireShardLeadership 0 (4 <<< 64)] s ∧
      s.shards.lookup 0 = some p ∧ p.leaderId ∉ p.replicas := by
  decide +kernel

/-! ## Terms -/

/-- No shard has the reserved term, and a rebalance removes at most one node. -/
structure TermsOk (s : ControllerState) : Prop where
  unreserved : ∀ shard p, s.shards.lookup shard = some p → p.leaderTerm < maxU64
  removing : ∀ shard, (s.removing shard).length ≤ 1

/-- The command does not move a leader at the last usable term. -/
def TermOk (s : ControllerState) : ControllerCommand → Prop
  | .completeRebalance shard =>
    ∀ p ∈ s.shards.lookup shard, p.leaderId ∈ s.removing shard →
      (∃ id ∈ p.replicas, id ≠ p.leaderId) → p.leaderTerm + 1 < maxU64
  | _ => True

/-- A later placement of a shard: the term has not gone back, and if it is the same, so is the
leader. -/
def ShardPlacement.LaterThan (p' p : ShardPlacement) : Prop :=
  p.leaderTerm ≤ p'.leaderTerm ∧ (p.leaderTerm = p'.leaderTerm → p.leaderId = p'.leaderId)

theorem ShardPlacement.LaterThan.refl (p : ShardPlacement) : p.LaterThan p :=
  ⟨Nat.le_refl _, fun _ => rfl⟩

theorem ShardPlacement.LaterThan.trans {p₁ p₂ p₃ : ShardPlacement} (h₁ : p₂.LaterThan p₁)
    (h₂ : p₃.LaterThan p₂) : p₃.LaterThan p₁ := by
  refine ⟨Nat.le_trans h₁.1 h₂.1, fun heq => ?_⟩
  have h₁₂ : p₁.leaderTerm = p₂.leaderTerm := Nat.le_antisymm h₁.1 (by rw [heq]; exact h₂.1)
  exact (h₁.2 h₁₂).trans (h₂.2 (h₁₂.symm.trans heq))

/-- Removing a node moves the leadership exactly when it is the leader and leaves a replica. -/
theorem removeNode_leader (shard : Nat) (p : ShardPlacement) (id : Uuid) :
    (p.leaderId = id ∧ ∃ x ∈ p.replicas, x ≠ p.leaderId) ∧
        (p.removeNode shard id).leaderTerm = satAdd64 p.leaderTerm 1 ∨
      ¬(p.leaderId = id ∧ ∃ x ∈ p.replicas, x ≠ p.leaderId) ∧
        (p.removeNode shard id).leaderTerm = p.leaderTerm ∧
        (p.removeNode shard id).leaderId = p.leaderId := by
  unfold ShardPlacement.removeNode
  dsimp only
  split
  · next heq =>
    cases hpick : pickLeader (p.replicas.filter (· ≠ id)) shard with
    | some next =>
      obtain ⟨hmem, hne⟩ := mem_filter.mp (pickLeader_mem hpick)
      exact .inl ⟨⟨heq, next, hmem, by simpa [heq] using hne⟩, rfl⟩
    | none =>
      have hnone := filter_eq_nil_iff.mp (pickLeader_eq_none.mp hpick)
      refine .inr ⟨?_, rfl, rfl⟩
      rintro ⟨-, x, hx, hne⟩
      exact hnone x hx (by simpa [heq] using hne)
  · next hother => exact .inr ⟨fun h => hother h.1, rfl, rfl⟩

/-- Completing a rebalance that removes at most one node, below the reserved term: the new term is
unreserved exactly when the command is allowed, and then the placement is a later one. -/
theorem removeAll_term {removing : List Uuid} (hone : removing.length ≤ 1)
    (hlt : p.leaderTerm < maxU64) :
    let p' := removing.foldl (ShardPlacement.removeNode shard) p
    (p'.leaderTerm < maxU64 ↔ (p.leaderId ∈ removing → (∃ id ∈ p.replicas, id ≠ p.leaderId) →
        p.leaderTerm + 1 < maxU64)) ∧
      (p'.leaderTerm < maxU64 → p'.LaterThan p) := by
  match removing, hone with
  | [], _ => exact ⟨iff_of_true hlt (fun h => nomatch h), fun _ => .refl p⟩
  | [id], _ =>
    simp only [foldl_cons, foldl_nil, mem_singleton]
    unfold ShardPlacement.LaterThan
    rcases removeNode_leader shard p id with ⟨⟨heq, hother⟩, hterm⟩ | ⟨hstays, hterm, hleader⟩
    · rw [hterm]
      unfold satAdd64
      unfold maxU64 at hlt ⊢
      refine ⟨⟨fun h _ _ => by omega, fun h => ?_⟩, fun h => ⟨by omega, fun heq => by omega⟩⟩
      have := h heq hother
      omega
    · rw [hterm, hleader]
      exact ⟨iff_of_true hlt fun heq hother => absurd ⟨heq, hother⟩ hstays,
        fun _ => ⟨Nat.le_refl _, fun _ => rfl⟩⟩

section

variable (h : Commanded s s' c)

include h

theorem Commanded.removing_length (hone : ∀ shard, (s.removing shard).length ≤ 1) (shard : Nat) :
    (s'.removing shard).length ≤ 1 := by
  rw [h.removing]
  unfold nextRemoving
  split
  · next k add remove =>
    split
    · cases remove <;> simp
    · exact hone shard
  · split
    · exact Nat.zero_le _
    · exact hone shard
  · exact hone shard

/-- What a command makes of the term of one shard: unreserved exactly when the command is allowed,
and then later than before. -/
theorem Commanded.term_iff (hok : TermsOk s) :
    (∀ shard p, s.shards.lookup shard = some p →
      (nextPlacement s shard p c).leaderTerm < maxU64) ↔ TermOk s c := by
  have hold := hok.unreserved
  cases c with
  | acquireShardLeadership k leaderId =>
    exact iff_of_true (forall_changed hold fun p hp =>
      (h.acquired k leaderId p rfl hp).2) trivial
  | beginRebalance k | promoteLearner k =>
    exact iff_of_true (forall_changed hold (hold k)) trivial
  | completeRebalance k =>
    exact forall_changed_iff hold fun p hp =>
      (removeAll_term (hok.removing k) (hold k p hp)).1
  | _ => exact iff_of_true hold trivial

/-- One command keeps the terms unreserved exactly when it is allowed. -/
theorem Commanded.termsOk_iff (hok : TermsOk s) : TermsOk s' ↔ TermOk s c := by
  rw [← h.term_iff hok, ← h.forall_placement (P := fun p => p.leaderTerm < maxU64)]
  exact ⟨TermsOk.unreserved, fun hall => ⟨hall, h.removing_length hok.removing⟩⟩

/-- An allowed command leaves every shard with a later placement. -/
theorem Commanded.laterThan (hok : TermsOk s) (hallowed : TermOk s c)
    (hp : s.shards.lookup shard = some p) : (nextPlacement s shard p c).LaterThan p := by
  have hlt := (h.term_iff hok).mpr hallowed shard p hp
  cases c with
  | acquireShardLeadership k leaderId =>
    simp only [nextPlacement]
    split
    · exact ⟨Nat.le_succ _, fun heq => absurd heq (Nat.ne_of_lt (Nat.lt_succ_self _))⟩
    · exact .refl p
  | beginRebalance | promoteLearner =>
    simp only [nextPlacement]
    split <;> exact ⟨Nat.le_refl _, fun _ => rfl⟩
  | completeRebalance k =>
    simp only [nextPlacement] at hlt ⊢
    split at hlt
    · next hk =>
      subst hk
      rw [if_pos rfl]
      exact (removeAll_term (hok.removing k) (hok.unreserved k p hp)).2 hlt
    · next hk =>
      rw [if_neg hk]
      exact .refl p
  | _ => exact .refl p

end

/-- Every shard's placement in `s'` is later than its placement in `s`, and no shard is gone. -/
def ControllerState.LaterThan (s' s : ControllerState) : Prop :=
  ∀ shard p, s.shards.lookup shard = some p →
    ∃ p', s'.shards.lookup shard = some p' ∧ p'.LaterThan p

/-- What a run of commands promises about the leaders and terms of the shards. -/
structure TermsSafe (s₀ : ControllerState) (commands : List ControllerCommand) : Prop where
  /-- A change of leader raises the term. -/
  raised : ∀ done c todo t t', commands = done ++ c :: todo → CommandRun s₀ done t →
    commandStep t c = some t' → ∀ shard p p', t.shards.lookup shard = some p →
      t'.shards.lookup shard = some p' → p.leaderId ≠ p'.leaderId → p.leaderTerm < p'.leaderTerm
  /-- No two nodes lead a shard at one term. -/
  oneLeader : ∀ done todo done' todo' t t', commands = done ++ todo → commands = done' ++ todo' →
    CommandRun s₀ done t → CommandRun s₀ done' t' → ∀ shard p p', t.shards.lookup shard = some p →
      t'.shards.lookup shard = some p' → p.leaderTerm = p'.leaderTerm → p.leaderId = p'.leaderId
  /-- The term stays below the one that replication requests reject. -/
  unreserved : ∀ done todo t, commands = done ++ todo → CommandRun s₀ done t →
    ∀ shard p, t.shards.lookup shard = some p → p.leaderTerm < maxU64

theorem fromV1_termsOk (h : ControllerState.fromV1 config shardCount shardTerms scheduler = .ok s)
    (hterms : ∀ shard term, shardTerms.lookup shard = some term → term < maxU64) : TermsOk s := by
  refine ⟨fun shard p hp => ?_, fun shard => ?_⟩
  · rw [fromV1_shards h] at hp
    split at hp
    · cases hp
      unfold initialPlacement
      dsimp only
      cases hterm : shardTerms.lookup shard with
      | none => decide
      | some term => exact hterms shard term hterm
    · cases hp
  · rw [fromV1_removing h]
    exact Nat.zero_le _

theorem run_laterThan (h : Run commandStep TermOk s commands s') (hok : TermsOk s) :
    s'.LaterThan s := by
  refine h.related TermsOk (fun t t' => t'.LaterThan t) ?_ ?_ ?_ ?_ hok
  · exact fun t shard p hp => ⟨p, hp, .refl p⟩
  · intro a b c hab hbc shard p hp
    obtain ⟨q, hq, hpq⟩ := hab shard p hp
    obtain ⟨r, hr, hqr⟩ := hbc shard q hq
    exact ⟨r, hr, hpq.trans hqr⟩
  · intro t c t' hok hallowed hstep
    exact ((applyCommand_commanded (commandStep_eq_some.mp hstep)).termsOk_iff hok).mpr hallowed
  · intro t c t' hok hallowed hstep shard p hp
    have hc := applyCommand_commanded (commandStep_eq_some.mp hstep)
    exact ⟨_, by rw [hc.placement, hp, map_some], hc.laterThan hok hallowed hp⟩

/-- Of two states of an allowed run, the later one has no other leader at the same term. -/
theorem oneLeader_of_prefix {t t' : ControllerState}
    {done todo done' todo' : List ControllerCommand} (hall : Run commandStep TermOk s₀ commands s)
    (hok : TermsOk t) (hcommands : commands = done ++ todo) (hcommands' : commands = done' ++ todo')
    (hlength : done.length ≤ done'.length) (hrun : CommandRun s₀ done t)
    (hrun' : CommandRun s₀ done' t') : t'.LaterThan t := by
  obtain ⟨between, rfl⟩ : done <+: done' :=
    prefix_of_prefix_length_le ⟨todo, hcommands.symm⟩ ⟨todo', hcommands'.symm⟩ hlength
  rw [hcommands', append_assoc] at hall
  exact run_laterThan (hall.between hrun hrun') hok

/-- **Terms over runs.** From a bootstrap state with unreserved terms, a run of successful commands
keeps leaders and terms in step exactly when no rebalance moves a leader at the last usable term. -/
theorem terms_safe_iff
    (hboot : ControllerState.fromV1 config shardCount shardTerms scheduler = .ok s₀)
    (hterms : ∀ shard term, shardTerms.lookup shard = some term → term < maxU64)
    (hrun : CommandRun s₀ commands s) :
    TermsSafe s₀ commands ↔ Run commandStep TermOk s₀ commands s := by
  have hok₀ : TermsOk s₀ := fromV1_termsOk hboot hterms
  have hiff := hrun.always_iff TermsOk TermOk fun t c t' hok hstep =>
    (applyCommand_commanded (commandStep_eq_some.mp hstep)).termsOk_iff hok
  constructor
  · intro hsafe
    refine (hiff.mp fun done todo t hcommands hdone => ?_).2
    refine ⟨hsafe.unreserved done todo t hcommands hdone, ?_⟩
    refine hdone.invariant (fun t => ∀ shard, (t.removing shard).length ≤ 1) ?_ hok₀.removing
    intro t c t' hone _ hstep
    exact (applyCommand_commanded (commandStep_eq_some.mp hstep)).removing_length hone
  · intro hall
    have hok := hiff.mpr ⟨hok₀, hall⟩
    refine ⟨?_, ?_, fun done todo t hcommands hdone => (hok done todo t hcommands hdone).unreserved⟩
    · intro done c todo t t' hcommands hdone hstep shard p p' hp hp' hne
      have hdone' : CommandRun s₀ (done ++ [c]) t' := hdone.snoc trivial hstep
      obtain ⟨q, hq, hle, hsame⟩ := oneLeader_of_prefix hall
        (hok done (c :: todo) t hcommands hdone)
        hcommands (by rw [hcommands, append_assoc]; rfl) (by simp) hdone hdone' shard p hp
      rw [hp'] at hq
      cases hq
      exact lt_of_le_of_ne hle fun heq => hne (hsame heq)
    · intro done todo done' todo' t t' hcommands hcommands' hdone hdone' shard p p' hp hp' heq
      rcases Nat.le_total done.length done'.length with hle | hle
      · obtain ⟨q, hq, -, hsame⟩ := oneLeader_of_prefix hall (hok done todo t hcommands hdone)
          hcommands hcommands' hle hdone hdone' shard p hp
        rw [hp'] at hq
        cases hq
        exact hsame heq
      · obtain ⟨q, hq, -, hsame⟩ := oneLeader_of_prefix hall (hok done' todo' t' hcommands' hdone')
          hcommands' hcommands hle hdone' hdone shard p' hp'
        rw [hp] at hq
        cases hq
        exact (hsame heq.symm).symm

instance (s : ControllerState) (c : ControllerCommand) : Decidable (TermOk s c) := by
  cases c <;> unfold TermOk <;> infer_instance

/-- The leader of shard 0 is rebalanced away. -/
def moveLeader : List ControllerCommand :=
  [.beginRebalance 0 none (some (1 <<< 64)), .completeRebalance 0]

theorem terms_safe_of_moveLeader : ∃ s₀ s, Booted s₀ ∧ CommandRun s₀ moveLeader s ∧
      TermsSafe s₀ moveLeader := by
  obtain ⟨s₀, hboot, s, hok⟩ : ∃ s₀, Booted s₀ ∧
      ∃ s, Run commandStep TermOk s₀ moveLeader s := by decide +kernel
  have hrun : CommandRun s₀ moveLeader s := hok.mono fun _ _ _ => trivial
  exact ⟨s₀, s, hboot, hrun, (terms_safe_iff hboot (fun _ _ h => nomatch h) hrun).mpr hok⟩

/-- The last usable term of shard 0. -/
def lastTerm : Table Nat Nat := (∅ : Table Nat Nat).insert 0 (maxU64 - 1)

/-- At the last usable term a rebalance of the leader leads to the reserved term. -/
theorem rebalance_reserves_term : ∃ s₀ s p,
    ControllerState.fromV1 fourNodes 1 lastTerm none = .ok s₀ ∧ CommandRun s₀ moveLeader s ∧
      s.shards.lookup 0 = some p ∧ p.leaderTerm = maxU64 := by
  decide +kernel

/-! ## One shard of the controller

The cluster model follows one shard: the replicas keep no learners and no in-sync set, and a command
on another shard does nothing. -/

/-- What the cluster model keeps of a placement. -/
def ShardPlacement.view (p : ShardPlacement) (minIsr : Nat) (removing : List Uuid) : Placement :=
  ⟨p.leaderId, p.leaderTerm, p.replicas, minIsr, removing⟩

def ControllerState.view (s : ControllerState) (shard : Nat) : Option Placement :=
  (s.shards.lookup shard).map fun p => p.view s.minIsr (s.removing shard)

def ControllerState.nodeIds (s : ControllerState) : List Uuid := s.nodes.entries.map fun e => e.2.id

/-- What a command is for one shard. -/
def ControllerCommand.onShard (shard : Nat) : ControllerCommand → Option BetterMQ.ControllerCommand
  | .acquireShardLeadership k leaderId =>
    if k = shard then some (.acquireShardLeadership leaderId) else none
  | .beginRebalance k _ remove => if k = shard then some (.beginRebalance remove) else none
  | .promoteLearner k nodeId => if k = shard then some (.promoteLearner nodeId) else none
  | .completeRebalance k => if k = shard then some .completeRebalance else none
  | .setReplicationPolicy factor minIsr => some (.setReplicationPolicy factor minIsr)
  | _ => none

theorem removeNode_view (shard : Nat) (p : ShardPlacement) (id : Uuid) (minIsr : Nat)
    (removing : List Uuid) :
    (p.removeNode shard id).view minIsr removing = (p.view minIsr removing).remove shard id := by
  unfold ShardPlacement.removeNode Placement.remove ShardPlacement.view
  dsimp only
  split
  · cases pickLeader (p.replicas.filter (· ≠ id)) shard <;> rfl
  · rfl

theorem removeAll_view (shard : Nat) (p : ShardPlacement) (ids : List Uuid) (minIsr : Nat)
    (removing : List Uuid) :
    (ids.foldl (ShardPlacement.removeNode shard) p).view minIsr removing
      = ids.foldl (Placement.remove shard) (p.view minIsr removing) := by
  induction ids generalizing p with
  | nil => rfl
  | cons id ids ih => rw [foldl_cons, ih, removeNode_view, foldl_cons]

theorem mem_nodeIds {id : Uuid} (h : s.hasNode id = true) : id ∈ s.nodeIds := by
  obtain ⟨e, he, hid⟩ := any_eq_true.mp h
  exact mem_map.mpr ⟨e, he, of_decide_eq_true hid⟩

/-- **The cluster model's commands are the controller's**: on every shard, a successful command does
what its reduced form does. -/
theorem applyCommand_view (h : applyCommand s c = .ok s') {v : Placement}
    (hv : s.view shard = some v) :
    s'.view shard = match c.onShard shard with
      | some c' => BetterMQ.applyCommand s.nodeIds shard v c'
      | none => some v := by
  have hc := applyCommand_commanded h
  obtain ⟨p, hp, rfl⟩ := map_eq_some_iff.mp hv
  have hview : s'.view shard
      = some ((nextPlacement s shard p c).view (nextMinIsr s c) (nextRemoving s shard c)) := by
    rw [ControllerState.view, hc.placement, hp, hc.minIsr, hc.removing]
    rfl
  rw [hview]
  unfold nextPlacement nextMinIsr nextRemoving ControllerCommand.onShard
  cases c with
  | acquireShardLeadership k leaderId =>
    by_cases hk : k = shard
    · subst hk
      obtain ⟨hnode, hlt⟩ := hc.acquired k leaderId p rfl hp
      have hallowed : leaderId ∈ s.nodeIds ∧ p.leaderTerm + 1 < 2 ^ 64 - 1 :=
        ⟨mem_nodeIds hnode, hlt⟩
      simp only [if_true, BetterMQ.applyCommand]
      exact (if_pos hallowed).symm
    · simp [hk]
  | beginRebalance k add remove =>
    by_cases hk : k = shard
    · simp [hk, ShardPlacement.view, ShardPlacement.withLearner, BetterMQ.applyCommand]
    · simp [hk]
  | promoteLearner k nodeId =>
    by_cases hk : k = shard
    · simp only [hk, if_true, BetterMQ.applyCommand]
      rfl
    · simp [hk]
  | completeRebalance k =>
    by_cases hk : k = shard
    · simp only [hk, if_true, BetterMQ.applyCommand]
      rw [← removeAll_view]
      rfl
    · simp [hk]
  | setReplicationPolicy factor minIsr =>
    simp only [minIsrFor, clampFromOne, max_assoc, max_self]
    rfl
  | _ => rfl

theorem acquired_leadership_view : ∃ s₀ s v, Booted s₀ ∧
      applyCommand s₀ (.acquireShardLeadership 0 (2 <<< 64)) = .ok s ∧ s₀.view 0 = some v ∧
      s.view 0 = BetterMQ.applyCommand s₀.nodeIds 0 v (.acquireShardLeadership (2 <<< 64)) := by
  exact Exists.imp (fun _ => Exists.imp fun _ => Exists.imp fun _ => and_imp_of fun _ =>
    and_imp_of fun h => and_of (applyCommand_view h)) (by decide +kernel)

end BetterMQ.Controller
