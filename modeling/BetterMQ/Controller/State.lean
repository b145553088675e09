import Mathlib.Data.List.AList
import BetterMQ.Replication.Cluster

/-!
# The controller's state and its commands (`broker-raft-meta/src/{controller,placement}.rs`)

The value the controller keeps in its replicated store, the bootstrap value `from_v1` builds from a
cluster configuration, and `apply_command`, which computes the next value or refuses the command.
Maps of the source are association lists with distinct keys. Times are the `i64` milliseconds of the
source, kept in range by its saturating additions.
-/

namespace BetterMQ.Controller

open BetterMQ

/-- A `HashMap` or `BTreeMap` of the source. -/
abbrev Table (κ α : Type) := AList fun _ : κ => α

instance {κ α : Type} [DecidableEq κ] [DecidableEq α] : DecidableEq (Table κ α) := fun a b =>
  decidable_of_iff (a.entries = b.entries) AList.ext_iff.symm

/-! ## Arithmetic -/

/-- `u64::MAX`. -/
def maxU64 : Nat := 2 ^ 64 - 1

/-- `u64::checked_add`. -/
def checkedAdd64 (a b : Nat) : Option Nat := if a + b ≤ maxU64 then some (a + b) else none

/-- `i64::saturating_add`. -/
def satAddI64 (a b : Int) : Int := max (-2 ^ 63) (min (a + b) (2 ^ 63 - 1))

/-- A UUID as it prints: 32 hexadecimal digits in groups of 8, 4, 4, 4 and 12. -/
def uuidText (id : Uuid) : String :=
  let hex := (List.range 32).map fun i => Nat.digitChar (id.toNat / 16 ^ (31 - i) % 16)
  String.ofList (hex.take 8 ++ '-' :: (hex.drop 8).take 4 ++ '-' :: (hex.drop 12).take 4 ++
    '-' :: (hex.drop 16).take 4 ++ '-' :: hex.drop 20)

/-! ## State -/

structure NodeConfig where
  id : Uuid
  addr : String
  deriving DecidableEq

structure ClusterConfig where
  clusterId : Uuid
  nodes : List NodeConfig
  /-- This process's node id. -/
  nodeId : Uuid
  generation : Nat
  deriving DecidableEq

structure SchedulerLease where
  holder : Uuid
  expiresAtMs : Int
  deriving DecidableEq

structure ControllerNode where
  id : Uuid
  raftId : Nat
  addr : String
  deriving DecidableEq

structure ShardPlacement where
  shard : Nat
  leaderId : Uuid
  leaderTerm : Nat
  replicas : List Uuid
  learners : List Uuid
  isr : List Uuid
  deriving DecidableEq

structure FanoutOutboxEntry where
  id : Uuid
  tenantId : String
  acceptanceHash : String
  version : Nat
  authorityTerm : Nat
  ownerId : Option Uuid
  leaseExpiresAtMs : Int
  payloadJson : String
  completed : Bool
  createdAtMs : Int
  updatedAtMs : Int
  deriving DecidableEq

structure DataNodeRecord where
  id : Uuid
  addr : String
  rack : Option String
  region : Option String
  broker : Bool
  controllerVoter : Bool
  deriving DecidableEq

structure CatalogRecord where
  kind : String
  key : String
  version : Nat
  payloadJson : String
  tombstone : Bool
  deriving DecidableEq

structure RebalanceOp where
  shard : Nat
  adding : List Uuid
  removing : List Uuid
  generation : Nat
  deriving DecidableEq

structure ControllerState where
  version : Nat
  clusterId : Uuid
  membershipGeneration : Nat
  nodes : Table Nat ControllerNode
  shards : Table Nat ShardPlacement
  catalogEpoch : Nat
  scheduler : Option SchedulerLease
  fanoutOutbox : Table Uuid FanoutOutboxEntry
  dataNodes : Table Uuid DataNodeRecord
  controllerVoters : List Uuid
  replicationFactor : Nat
  minIsr : Nat
  catalogRecords : Table String CatalogRecord
  gcWatermarks : Table Nat Nat
  rebalance : Table Nat RebalanceOp
  deriving DecidableEq

inductive ControllerError where
  | nodeIdCollision (first second : Uuid)
  | unknownNode (id : Uuid)
  | invalidCommand (message : String)
  deriving DecidableEq

/-- `raft_id`: the first eight bytes of the UUID. -/
def raftId (id : Uuid) : Nat := id.toNat / 2 ^ 64

/-- Some controller node has this id. -/
def ControllerState.hasNode (s : ControllerState) (id : Uuid) : Bool :=
  s.nodes.entries.any fun e => e.2.id = id

/-! ## Placement -/

def defaultRf : Nat := 3

def defaultMinIsr : Nat := 2

/-- `replication_policy`: the replication factor and the in-sync minimum of a fresh cluster. -/
def replicationPolicy (nodeCount : Nat) : Nat × Nat :=
  if nodeCount ≤ 1 then (1, 1)
  else
    let rf := max (min defaultRf nodeCount) 1
    (rf, max (min defaultMinIsr rf) 1)

/-- `u32::clamp(1, hi)` for `hi ≥ 1`. -/
def clampFromOne (n hi : Nat) : Nat := max 1 (min n hi)

def minIsrFor (rf configured : Nat) : Nat := clampFromOne configured (max rf 1)

/-- The first pass of `place_replicas`: the replicas chosen so far, and their racks. -/
def chooseByRack (rf : Nat) (chosen : List Uuid × List String) (node : DataNodeRecord) :
    List Uuid × List String :=
  if chosen.1.length ≥ rf then chosen
  else
    let rack := node.rack.getD ""
    if rack ≠ "" ∧ rack ∈ chosen.2 then chosen
    else (chosen.1 ++ [node.id], if rack ≠ "" then rack :: chosen.2 else chosen.2)

/-- The second pass of `place_replicas`, whatever the rack. -/
def chooseAny (rf : Nat) (chosen : List Uuid) (node : DataNodeRecord) : List Uuid :=
  if chosen.length ≥ rf ∨ node.id ∈ chosen then chosen else chosen ++ [node.id]

/-- `place_replicas`: both passes walk the brokers once around the ring from the shard's place. -/
def placeReplicas (nodes : List DataNodeRecord) (shard rf : Nat) : List Uuid :=
  let brokers := nodes.filter fun node => node.broker
  let rf := clampFromOne rf brokers.length
  let ring := brokers.rotate (shard % brokers.length)
  if brokers = [] then []
  else ring.foldl (chooseAny rf) (ring.foldl (chooseByRack rf) ([], [])).1

/-- `initial_controller_voters`: one, two, three or five of the nodes. -/
def initialControllerVoters (nodes : List DataNodeRecord) : List Uuid :=
  let count := match nodes.length with
    | 0 => 0
    | 1 => 1
    | 2 => 2
    | 3 | 4 => 3
    | _ => 5
  (nodes.take count).map fun node => node.id

def catalogKey (kind key : String) : String := s!"{kind}:{key}"

def upsertCatalog (records : Table String CatalogRecord) (kind key payloadJson : String)
    (tombstone : Bool) : Table String CatalogRecord :=
  let mapKey := catalogKey kind key
  let version := ((records.lookup mapKey).map fun r => satAdd64 r.version 1).getD 1
  records.insert mapKey ⟨kind, key, version, payloadJson, tombstone⟩

/-! ## Bootstrap -/

/-- The controller nodes of a configuration. Two ids with one prefix are refused. -/
def bootstrapNodes : List NodeConfig → Table Nat ControllerNode →
    Except ControllerError (Table Nat ControllerNode)
  | [], nodes => .ok nodes
  | node :: rest, nodes =>
    match nodes.lookup (raftId node.id) with
    | some existing =>
      if existing.id ≠ node.id then .error (.nodeIdCollision existing.id node.id)
      else bootstrapNodes rest (nodes.insert (raftId node.id) ⟨node.id, raftId node.id, node.addr⟩)
    | none =>
      bootstrapNodes rest (nodes.insert (raftId node.id) ⟨node.id, raftId node.id, node.addr⟩)

/-- The data nodes of a configuration, before voters are chosen. -/
def provisionalNodes (nodes : List NodeConfig) : List DataNodeRecord :=
  nodes.map fun node => ⟨node.id, node.addr, none, none, true, false⟩

/-- The data nodes by id; a repeated id keeps its last record. -/
def bootstrapDataNodes (voters : List Uuid) (nodes : List DataNodeRecord) :
    Table Uuid DataNodeRecord :=
  nodes.foldl (fun table node =>
    table.insert node.id { node with controllerVoter := node.id ∈ voters }) ∅

/-- The values of the data-node map, in the order of their ids. -/
def nodeList (table : Table Uuid DataNodeRecord) : List DataNodeRecord :=
  (table.entries.map fun e => e.2).insertionSort fun a b => a.id.toNat ≤ b.id.toNat

/-- The placement of one shard of a fresh cluster. -/
def initialPlacement (nodes : List DataNodeRecord) (rf : Nat) (self : Uuid)
    (shardTerms : Table Nat Nat) (shard : Nat) : ShardPlacement :=
  let replicas := placeReplicas nodes shard rf
  { shard := shard
    leaderId := ((pickLeader replicas shard).or (nodes.head?.map fun node => node.id)).getD self
    leaderTerm := (shardTerms.lookup shard).getD 0
    replicas := replicas
    learners := []
    isr := replicas }

def ControllerState.fromV1 (config : ClusterConfig) (shardCount : Nat) (shardTerms : Table Nat Nat)
    (scheduler : Option SchedulerLease) : Except ControllerError ControllerState := do
  let nodes ← bootstrapNodes config.nodes ∅
  let provisional := provisionalNodes config.nodes
  let dataNodes := bootstrapDataNodes (initialControllerVoters provisional) provisional
  let list := nodeList dataNodes
  let (replicationFactor, minIsr) := replicationPolicy list.length
  .ok {
    version := 1
    clusterId := config.clusterId
    membershipGeneration := config.generation
    nodes := nodes
    shards := (List.range (max shardCount 1)).foldl (fun shards shard =>
      shards.insert shard (initialPlacement list replicationFactor config.nodeId
        shardTerms shard)) ∅
    catalogEpoch := 0
    scheduler := scheduler
    fanoutOutbox := ∅
    dataNodes := dataNodes
    controllerVoters := initialControllerVoters list
    replicationFactor := replicationFactor
    minIsr := minIsr
    catalogRecords := ∅
    gcWatermarks := ∅
    rebalance := ∅ }

/-! ## Commands -/

inductive ControllerCommand where
  | acquireShardLeadership (shard : Nat) (leaderId : Uuid)
  | observeShardTerm (shard : Nat) (leaderId : Uuid) (term : Nat)
  | acquireScheduler (holder : Uuid) (nowMs ttlMs : Int)
  | advanceCatalogEpoch
  | acceptFanout (id : Uuid) (tenantId acceptanceHash payloadJson : String) (createdAtMs : Int)
      (controllerTerm : Nat)
  | claimFanout (id ownerId : Uuid) (expectedVersion : Nat) (nowMs ttlMs : Int)
      (controllerTerm : Nat)
  | updateFanout (id ownerId : Uuid) (expectedVersion : Nat) (payloadJson : String)
      (completed : Bool) (nowMs : Int) (controllerTerm : Nat)
  | garbageCollectFanout (ids : List Uuid) (completedBeforeMs : Int) (controllerTerm : Nat)
  | registerDataNode (node : DataNodeRecord)
  | putCatalogRecord (kind key payloadJson : String) (tombstone : Bool)
  | beginRebalance (shard : Nat) (add remove : Option Uuid)
  | promoteLearner (shard : Nat) (nodeId : Uuid)
  | completeRebalance (shard : Nat)
  | setGcWatermark (shard watermark : Nat)
  | setReplicationPolicy (factor minIsr : Nat)
  | addControllerVoter (nodeId : Uuid)
  | removeControllerVoter (nodeId : Uuid)
  deriving DecidableEq

def invalid {α : Type} (message : String) : Except ControllerError α :=
  .error (.invalidCommand message)

section

variable (s : ControllerState)

/-- A shard's placement, or the error every command on an unknown shard returns. -/
def ControllerState.placement (shard : Nat) : Except ControllerError ShardPlacement :=
  match s.shards.lookup shard with
  | some p => .ok p
  | none => invalid s!"unknown shard {shard}"

def ControllerState.setPlacement (shard : Nat) (p : ShardPlacement) :
    ControllerState := { s with shards := s.shards.insert shard p }

/-- An outbox entry, or the error of a command on an unknown one. -/
def ControllerState.fanout (id : Uuid) : Except ControllerError FanoutOutboxEntry :=
  match s.fanoutOutbox.lookup id with
  | some entry => .ok entry
  | none =>
    let text := uuidText id
    invalid s!"unknown fanout {text}"

def ControllerState.setFanout (id : Uuid) (entry : FanoutOutboxEntry) :
    ControllerState := { s with fanoutOutbox := s.fanoutOutbox.insert id entry }

end

/-- The next version of the outbox entry of `id`. -/
def FanoutOutboxEntry.bump (id : Uuid) (entry : FanoutOutboxEntry) : Except ControllerError Nat :=
  match checkedAdd64 entry.version 1 with
  | some version => .ok version
  | none =>
    let text := uuidText id
    invalid s!"fanout {text} version exhausted"

/-- Take one node out of a placement, as `CompleteRebalance` does. -/
def ShardPlacement.removeNode (shard : Nat) (p : ShardPlacement) (id : Uuid) : ShardPlacement :=
  let p :=
    { p with
      replicas := p.replicas.filter (· ≠ id)
      isr := p.isr.filter (· ≠ id)
      learners := p.learners.filter (· ≠ id) }
  if p.leaderId = id then
    match pickLeader p.replicas shard with
    | some next => { p with leaderId := next, leaderTerm := satAdd64 p.leaderTerm 1 }
    | none => p
  else p

/-- The voter mark of a data node. -/
def ControllerState.markVoter (s : ControllerState) (id : Uuid) (voter : Bool) : ControllerState :=
  match s.dataNodes.lookup id with
  | some node =>
    { s with dataNodes := s.dataNodes.insert id { node with controllerVoter := voter } }
  | none => s

def applyCommand (s : ControllerState) : ControllerCommand → Except ControllerError ControllerState
  | .acquireShardLeadership shard leaderId =>
    if s.hasNode leaderId = false then .error (.unknownNode leaderId)
    else do
      let p ← s.placement shard
      match (checkedAdd64 p.leaderTerm 1).filter (· ≠ maxU64) with
      | some term => .ok (s.setPlacement shard { p with leaderTerm := term, leaderId := leaderId })
      | none => invalid "shard term exhausted"
  | .observeShardTerm shard leaderId term => do
    let p ← s.placement shard
    if p.leaderId ≠ leaderId ∨ p.leaderTerm ≠ term then
      let observed := uuidText leaderId
      let committed := uuidText p.leaderId
      let held := p.leaderTerm
      invalid s!"term {term} for {observed} is not the committed placement {committed}@{held}"
    else .ok s
  | .acquireScheduler holder nowMs ttlMs =>
    if s.hasNode holder = false then .error (.unknownNode holder)
    else if s.scheduler.all fun lease => lease.expiresAtMs ≤ nowMs ∨ lease.holder = holder then
      .ok { s with scheduler := some ⟨holder, satAddI64 nowMs (max ttlMs 1)⟩ }
    else invalid "scheduler lease is held by another node"
  | .advanceCatalogEpoch =>
    match checkedAdd64 s.catalogEpoch 1 with
    | some epoch => .ok { s with catalogEpoch := epoch }
    | none => invalid "catalog epoch exhausted"
  | .acceptFanout id tenantId acceptanceHash payloadJson createdAtMs controllerTerm =>
    match s.fanoutOutbox.lookup id with
    | some existing =>
      if existing.tenantId = tenantId ∧
          ((acceptanceHash ≠ "" ∧ existing.acceptanceHash = acceptanceHash) ∨
            (acceptanceHash = "" ∧ existing.payloadJson = payloadJson)) then .ok s
      else
        let text := uuidText id
        invalid s!"fanout {text} already exists with different content"
    | none =>
      .ok (s.setFanout id
        ⟨id, tenantId, acceptanceHash, 1, controllerTerm, none, 0, payloadJson, false, createdAtMs,
          createdAtMs⟩)
  | .claimFanout id ownerId expectedVersion nowMs ttlMs controllerTerm => do
    let entry ← s.fanout id
    let text := uuidText id
    let version := entry.version
    let authority := entry.authorityTerm
    if entry.completed then .ok s
    else if entry.ownerId = some ownerId ∧ authority = controllerTerm ∧
        entry.leaseExpiresAtMs > nowMs then .ok s
    else if expectedVersion ≠ version then
      invalid s!"fanout {text} version fence failed: expected {expectedVersion}, have {version}"
    else if authority > controllerTerm then
      invalid s!"fanout {text} term fence failed: stale {controllerTerm}, have {authority}"
    else if entry.ownerId.isSome ∧ entry.leaseExpiresAtMs > nowMs ∧ authority = controllerTerm then
      invalid s!"fanout {text} is leased by another worker"
    else do
      let next ← entry.bump id
      .ok (s.setFanout id
        { entry with
          version := next
          authorityTerm := controllerTerm
          ownerId := some ownerId
          leaseExpiresAtMs := satAddI64 nowMs (max ttlMs 1)
          updatedAtMs := nowMs })
  | .updateFanout id ownerId expectedVersion payloadJson completed nowMs controllerTerm => do
    let entry ← s.fanout id
    let text := uuidText id
    if entry.payloadJson = payloadJson ∧ entry.completed = completed then .ok s
    else if expectedVersion ≠ entry.version ∨ entry.authorityTerm ≠ controllerTerm ∨
        entry.ownerId ≠ some ownerId then
      invalid s!"fanout {text} ownership fence failed"
    else if entry.leaseExpiresAtMs ≤ nowMs then invalid s!"fanout {text} lease expired"
    else do
      let next ← entry.bump id
      .ok (s.setFanout id
        { entry with
          version := next
          payloadJson := payloadJson
          completed := completed
          updatedAtMs := nowMs
          ownerId := if completed then none else entry.ownerId
          leaseExpiresAtMs := if completed then 0 else entry.leaseExpiresAtMs })
  | .garbageCollectFanout ids _ controllerTerm =>
    let dead := s.fanoutOutbox.entries.filter fun e =>
      decide (e.1 ∈ ids) && e.2.completed && decide (e.2.authorityTerm ≤ controllerTerm)
    .ok { s with fanoutOutbox := dead.foldl (fun outbox e => outbox.erase e.1) s.fanoutOutbox }
  | .registerDataNode node =>
    let node := { node with controllerVoter := decide (node.id ∈ s.controllerVoters) }
    .ok
      { s with
        dataNodes := s.dataNodes.insert node.id node
        nodes :=
          if s.hasNode node.id then s.nodes
          else s.nodes.insert (raftId node.id) ⟨node.id, raftId node.id, node.addr⟩
        membershipGeneration := satAdd64 s.membershipGeneration 1 }
  | .putCatalogRecord kind key payloadJson tombstone =>
    .ok
      { s with
        catalogRecords := upsertCatalog s.catalogRecords kind key payloadJson tombstone
        catalogEpoch := satAdd64 s.catalogEpoch 1 }
  | .beginRebalance shard add remove => do
    let p ← s.placement shard
    let learners := match add with
      | some id => if id ∉ p.replicas ∧ id ∉ p.learners then p.learners ++ [id] else p.learners
      | none => p.learners
    let generation := ((s.rebalance.lookup shard).map fun op => satAdd64 op.generation 1).getD 1
    .ok
      { s.setPlacement shard { p with learners := learners } with
        rebalance := s.rebalance.insert shard ⟨shard, add.toList, remove.toList, generation⟩ }
  | .promoteLearner shard nodeId => do
    let p ← s.placement shard
    .ok (s.setPlacement shard
      { p with
        learners := p.learners.filter (· ≠ nodeId)
        replicas := if nodeId ∈ p.replicas then p.replicas else p.replicas ++ [nodeId]
        isr := if nodeId ∈ p.isr then p.isr else p.isr ++ [nodeId] })
  | .completeRebalance shard =>
    match s.rebalance.lookup shard with
    | none => .ok s
    | some op =>
      let s := { s with rebalance := s.rebalance.erase shard }
      match s.shards.lookup shard with
      | none => .ok s
      | some p => .ok (s.setPlacement shard (op.removing.foldl (ShardPlacement.removeNode shard) p))
  | .setGcWatermark shard watermark =>
    let current := (s.gcWatermarks.lookup shard).getD 0
    if watermark < current then
      invalid s!"gc watermark for shard {shard} cannot move backwards ({watermark} < {current})"
    else .ok { s with gcWatermarks := s.gcWatermarks.insert shard watermark }
  | .setReplicationPolicy factor minIsr =>
    let factor := max factor 1
    .ok { s with replicationFactor := factor, minIsr := minIsrFor factor minIsr }
  | .addControllerVoter nodeId =>
    if (s.dataNodes.lookup nodeId).isNone ∧ s.hasNode nodeId = false then
      let text := uuidText nodeId
      invalid s!"unknown node {text}"
    else if nodeId ∈ s.controllerVoters then .ok (s.markVoter nodeId true)
    else if s.controllerVoters.length ≥ 5 then invalid "controller voter set is already at 5"
    else
      .ok ({ s with controllerVoters := s.controllerVoters ++ [nodeId] }.markVoter nodeId true)
  | .removeControllerVoter nodeId =>
    if nodeId ∉ s.controllerVoters then
      let text := uuidText nodeId
      invalid s!"{text} is not a controller voter"
    else if s.controllerVoters.length ≤ 1 then invalid "cannot remove the last controller voter"
    else
      .ok ({ s with controllerVoters := s.controllerVoters.filter (· ≠ nodeId) }.markVoter nodeId
        false)

/-! ## What a successful command does -/

variable {s s' : ControllerState} {c : ControllerCommand} {e : FanoutOutboxEntry} {id owner : Uuid}

theorem bind_eq_ok {α β : Type} {r : Except ControllerError α} {f : α → Except ControllerError β}
    {b : β} (h : (r >>= f) = .ok b) : ∃ a, r = .ok a ∧ f a = .ok b := by
  cases r with
  | error e => cases h
  | ok a => exact ⟨a, rfl, h⟩

theorem fanout_eq_ok : s.fanout id = .ok e ↔ s.fanoutOutbox.lookup id = some e := by
  unfold ControllerState.fanout
  cases s.fanoutOutbox.lookup id <;> simp [invalid]

theorem bump_eq_ok {v : Nat} (h : e.bump id = .ok v) : v = e.version + 1 := by
  grind [FanoutOutboxEntry.bump, checkedAdd64, invalid]

/-- A claim takes the entry, or finds it completed or leased to the claimant already. -/
theorem claimFanout_cases {v term : Nat} {nowMs ttlMs : Int}
    (h : applyCommand s (.claimFanout id owner v nowMs ttlMs term) = .ok s') :
    ∃ e, s.fanoutOutbox.lookup id = some e ∧
      (s' = s ∧ (e.completed = true ∨ e.ownerId = some owner) ∨
        e.completed = false ∧ v = e.version ∧ e.authorityTerm ≤ term ∧
          ¬(e.ownerId.isSome ∧ e.leaseExpiresAtMs > nowMs ∧ e.authorityTerm = term) ∧
          s' = s.setFanout id
            { e with
              version := e.version + 1
              authorityTerm := term
              ownerId := some owner
              leaseExpiresAtMs := satAddI64 nowMs (max ttlMs 1)
              updatedAtMs := nowMs }) := by
  obtain ⟨e, he, h⟩ := bind_eq_ok h
  refine ⟨e, fanout_eq_ok.mp he, ?_⟩
  dsimp only at h
  split_ifs at h with hdone hown hv hterm hleased <;> try cases h
  · exact .inl ⟨rfl, .inl hdone⟩
  · exact .inl ⟨rfl, .inr hown.1⟩
  · obtain ⟨next, hnext, h⟩ := bind_eq_ok h
    cases h
    cases bump_eq_ok hnext
    grind

/-- An update changes nothing, or comes from the holder of the lease. -/
theorem updateFanout_cases {v term : Nat} {payload : String} {completed : Bool} {nowMs : Int}
    (h : applyCommand s (.updateFanout id owner v payload completed nowMs term) = .ok s') :
    ∃ e, s.fanoutOutbox.lookup id = some e ∧
      (s' = s ∨
        v = e.version ∧ e.authorityTerm = term ∧ e.ownerId = some owner ∧
          e.leaseExpiresAtMs > nowMs ∧
          s' = s.setFanout id
            { e with
              version := e.version + 1
              payloadJson := payload
              completed := completed
              updatedAtMs := nowMs
              ownerId := if completed then none else e.ownerId
              leaseExpiresAtMs := if completed then 0 else e.leaseExpiresAtMs }) := by
  obtain ⟨e, he, h⟩ := bind_eq_ok h
  refine ⟨e, fanout_eq_ok.mp he, ?_⟩
  split at h
  · cases h
    exact .inl rfl
  · split_ifs at h <;> try cases h
    all_goals
      obtain ⟨next, hnext, h⟩ := bind_eq_ok h
      cases h
      cases bump_eq_ok hnext
      grind

/-- The parts of the state, by the commands that change them. -/
inductive Part where
  | placement
  | fanout
  | registry
  | other
  deriving DecidableEq

def ControllerCommand.part : ControllerCommand → Part
  | .acquireShardLeadership .. | .beginRebalance .. | .promoteLearner .. | .completeRebalance ..
  | .setReplicationPolicy .. => .placement
  | .acceptFanout .. | .claimFanout .. | .updateFanout .. | .garbageCollectFanout .. => .fanout
  | .registerDataNode .. | .addControllerVoter .. | .removeControllerVoter .. => .registry
  | _ => .other

/-- A command leaves the other parts alone. -/
theorem applyCommand_frame (h : applyCommand s c = .ok s') :
    (c.part ≠ .placement → s'.shards = s.shards ∧ s'.rebalance = s.rebalance ∧
      s'.minIsr = s.minIsr) ∧
    (c.part ≠ .fanout → s'.fanoutOutbox = s.fanoutOutbox) ∧
    (c.part ≠ .registry → s'.nodes = s.nodes ∧ s'.dataNodes = s.dataNodes) := by
  cases c with
  | acquireShardLeadership shard leaderId =>
    rw [applyCommand] at h
    split at h
    · cases h
    · obtain ⟨p, -, h⟩ := bind_eq_ok h
      grind [invalid, ControllerCommand.part, ControllerState.setPlacement]
  | observeShardTerm | beginRebalance | promoteLearner =>
    obtain ⟨p, -, h⟩ := bind_eq_ok h
    grind [invalid, ControllerCommand.part, ControllerState.setPlacement]
  | claimFanout =>
    obtain ⟨e, -, h⟩ := claimFanout_cases h
    grind [ControllerCommand.part, ControllerState.setFanout]
  | updateFanout =>
    obtain ⟨e, -, h⟩ := updateFanout_cases h
    grind [ControllerCommand.part, ControllerState.setFanout]
  | _ =>
    grind [applyCommand, invalid, ControllerCommand.part, ControllerState.markVoter,
      ControllerState.setPlacement, ControllerState.setFanout]

end BetterMQ.Controller
