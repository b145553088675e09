import BetterMQ.Lib.DurableLog
import BetterMQ.Storage.Log

/-!
# One shard on a cluster

The functions that move the records of one shard between nodes: the controller's placement commands
(`apply_command`), the replication targets and the fencing of a replicate request
(`replication_targets`, `validate_replication_epoch`), the frame append of a follower
(`append_raw_frame`), and the page a node answers to a catch-up request
(`internal_replicate_catch_up`).

A shard log is a `DurableLog`: the records, and how many of them an fsync has covered.
-/

namespace BetterMQ

abbrev NodeId := Uuid

/-! ## Placement -/

/-- `ShardPlacement` of the shard, with the `min_isr` of the controller state and the nodes that
its rebalance is about to remove. -/
structure Placement where
  leaderId : NodeId
  leaderTerm : Nat
  replicas : List NodeId
  minIsr : Nat
  removing : List NodeId
  deriving DecidableEq

/-- The commands of the controller that concern the placement of a shard. -/
inductive ControllerCommand where
  | acquireShardLeadership (leaderId : NodeId)
  | beginRebalance (remove : Option NodeId)
  | promoteLearner (nodeId : NodeId)
  | completeRebalance
  | setReplicationPolicy (factor minIsr : Nat)
  deriving DecidableEq

def pickLeader (replicas : List NodeId) (shard : Nat) : Option NodeId :=
  replicas[shard % replicas.length]?

/-- Take one node out of a placement. -/
def Placement.remove (shard : Nat) (p : Placement) (id : NodeId) : Placement :=
  let replicas := p.replicas.filter (· ≠ id)
  if p.leaderId = id then
    match pickLeader replicas shard with
    | some next =>
      { p with
        replicas := replicas
        leaderId := next
        leaderTerm := min (p.leaderTerm + 1) (2 ^ 64 - 1) }
    | none => { p with replicas := replicas }
  else { p with replicas := replicas }

/-- `apply_command`; `none` is an error. -/
def applyCommand (nodes : List NodeId) (shard : Nat) (p : Placement) :
    ControllerCommand → Option Placement
  | .acquireShardLeadership leaderId =>
    if leaderId ∈ nodes ∧ p.leaderTerm + 1 < 2 ^ 64 - 1 then
      some { p with leaderId := leaderId, leaderTerm := p.leaderTerm + 1 }
    else none
  | .beginRebalance remove => some { p with removing := remove.toList }
  | .promoteLearner nodeId =>
    some { p with replicas := if nodeId ∈ p.replicas then p.replicas else p.replicas ++ [nodeId] }
  | .completeRebalance => some { p.removing.foldl (Placement.remove shard) p with removing := [] }
  | .setReplicationPolicy factor minIsr =>
    some { p with minIsr := max 1 (min minIsr (max factor 1)) }

section

variable (p : Placement) (nodes : List NodeId)

/-- `replica_ids_for_shard`: all nodes when the placement names none. -/
def Placement.replicaIds : List NodeId :=
  if p.replicas = [] then nodes else p.replicas

/-- The `min_isr` that `replication_targets` uses. -/
def Placement.quorum : Nat :=
  let rf := max (p.replicaIds nodes).length 1
  let minIsr := if p.minIsr > 0 then p.minIsr else if rf ≥ 3 then 2 else 1
  max 1 (min minIsr rf)

/-- `replication_targets` on node `self`. -/
def Placement.replicationTargets (self : NodeId) : List NodeId × Nat :=
  ((nodes.filter (· ≠ self)).filter (· ∈ p.replicaIds nodes), p.quorum nodes)

end

/-! ## Frames -/

/-- A replicated frame, with the id of the record before it at the node that sent it. No node reads
`before`. -/
structure ReplicaFrame where
  offset : Nat
  item : Item
  before : Option Uuid
  deriving DecidableEq

def ReplicaFrame.id (f : ReplicaFrame) : Uuid := f.item.1.id

/-- The ids of the records of a log. -/
def logIds (records : List Item) : List Uuid := records.map fun item => item.1.id

/-- The frame of the record at an offset of a log. -/
def frameAt (records : List Item) (offset : Nat) : Option ReplicaFrame :=
  records[offset]?.map fun item =>
    ⟨offset, item, if offset = 0 then none else (logIds records)[offset - 1]?⟩

/-- The frames from an offset to the end of a log. -/
def framesFrom (records : List Item) (offset : Nat) : List ReplicaFrame :=
  (List.range' offset (records.length - offset)).filterMap (frameAt records)

/-- `replication_frames` drops the idempotency key of a record. -/
def ReplicaFrame.withoutKey (f : ReplicaFrame) : ReplicaFrame :=
  { f with item := ({ f.item.1 with idempotencyKey := none }, f.item.2) }

/-! ## Nodes -/

/-- `ReplicateCatchUpRange`. -/
structure CatchUpPage where
  committedHwm : Nat
  frames : List ReplicaFrame
  deriving DecidableEq

/-- Where `catch_up_shard` stands with its topic. -/
inductive CatchUpStage where
  /-- Peers are asked one by one; the best answer so far, and the local end of the log and the
  offset asked from, as they were when the topic was begun. -/
  | probing (todo : List NodeId) (localLeo probeFrom : Nat) (best : Option (NodeId × CatchUpPage))
  /-- The frames of a page of the source are applied; `last` is the last one applied. -/
  | applying (source : NodeId) (hwm : Nat) (frames : List ReplicaFrame) (last : Option Nat)
  deriving DecidableEq

/-- A running `catch_up_shard`. -/
structure CatchUp where
  /-- The topics of this log that are left, the current one first. -/
  topics : List String
  peers : List NodeId
  stage : CatchUpStage
  /-- The peers that answered for the current topic. -/
  answered : List NodeId
  deriving DecidableEq

/-- What one node knows of the shard. -/
structure Replica where
  log : DurableLog Item
  /-- `committed_hwm`. -/
  committed : Nat
  /-- Offsets that were purged or collected. -/
  removed : List Nat
  /-- The placement of the last controller command the node applied. -/
  placement : Placement
  /-- `OpenRaftController::is_ready`. -/
  lease : Bool
  /-- The shard is in `blocked_shards`. -/
  blocked : Bool
  /-- The node is the shard's entry in `prev_leaders` of the health monitor. -/
  wasLeader : Bool
  catchUp : Option CatchUp
  /-- The records that had been acknowledged when the node last marked the shard ready. -/
  mustHold : List (Nat × Uuid)

section

variable (r : Replica)

/-- `elect_leader_for_shard`. -/
def Replica.electLeader : Option NodeId :=
  if r.lease then some r.placement.leaderId else none

/-- `is_leader_for_shard`. -/
def Replica.isLeader (self : NodeId) : Bool :=
  r.lease && !r.blocked && decide (r.electLeader = some self)

/-- `validate_replication_epoch`. An epoch above the own one must be the controller's, which is the
own one. -/
def Replica.validateReplicationEpoch (leaderId : NodeId) (leaderEpoch : Nat) : Bool :=
  let expected := r.placement.leaderTerm
  if r.electLeader ≠ some leaderId then false
  else if leaderEpoch < expected then false
  else if expected < leaderEpoch then
    if leaderEpoch ≠ min (expected + 1) (2 ^ 64 - 1) then false
    else decide (r.placement.leaderTerm = leaderEpoch)
  else true

/-- `append_raw_frame` with an expected offset; `none` is an error. -/
def Replica.appendRawFrame (f : ReplicaFrame) : Option Replica :=
  let next := r.log.records.length
  if f.offset < next then
    -- an applied offset is an idempotent success, if it can be read back
    if f.offset ∉ r.removed ∧ (logIds r.log.records)[f.offset]? = some f.id then some r else none
  else if next < f.offset then none
  else some { r with log := r.log.append [f.item] }

/-- `internal_replicate_catch_up`. -/
def Replica.catchUpRange (topic : String) (fromOffset maxRecords : Nat) : CatchUpPage where
  committedHwm := r.committed
  frames := ((framesFrom r.log.records fromOffset).filter fun f =>
    decide (f.item.1.topic = topic ∧ f.offset ∉ r.removed)).map ReplicaFrame.withoutKey
    |>.take (min (max 1 (min maxRecords 4096)) (r.committed - fromOffset))

end

end BetterMQ
