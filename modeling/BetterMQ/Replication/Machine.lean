import BetterMQ.Lib.Run
import BetterMQ.Replication.Cluster
import Mathlib.Logic.Function.Basic

/-!
# The cluster machine

Publishes on leaders, replicate requests and their acks, placement changes, restarts and the
catch-up of a node that gained the shard, one access to a log at a step, in any order: requests and
acks are delivered late, more than once or never, and a node applies placements when it likes.

`publish_on_leader` and the batch path are `startPublish`, `append`, `send`, `receive`,
`acknowledge`; `internal_replicate_batch` is `accept`, `appendFrame`, `finish`; `catch_up_shard` is
`gain`, `probe`, `choose`, `applyFrame`, `nextPage`.
-/

namespace BetterMQ

/-! ## States -/

/-- What `replicate_batch_with_local` reads when it starts. -/
structure ReplicateRequest where
  leaderEpoch : Nat
  targets : List NodeId
  quorum : Nat
  deriving DecidableEq

/-- A publish on a node that was the shard's leader when the record was prepared. -/
structure Publishing where
  leader : NodeId
  /-- The call is running. -/
  alive : Bool
  /-- What was appended; empty before the append. -/
  frames : List ReplicaFrame
  /-- The request to the peers, once it is on its way. -/
  request : Option ReplicateRequest
  /-- The peers whose acks were counted. -/
  acked : List NodeId
  deriving DecidableEq

/-- A running `internal_replicate_batch`: the request, the node, the frames that are appended. -/
structure Handler where
  publishing : Nat
  peer : NodeId
  done : Nat
  deriving DecidableEq

structure Cluster where
  /-- `ClusterConfig::nodes`. -/
  nodes : List NodeId
  shard : Nat
  fsync : FsyncMode
  /-- The placements the controller committed, the latest last. -/
  placements : List Placement
  replicas : NodeId → Replica
  publishings : List Publishing
  handlers : List Handler
  /-- Acks on their way to the leader. -/
  acks : List (Nat × NodeId)
  /-- The offsets and ids of all acknowledged records. -/
  acknowledged : List (Nat × Uuid)
  /-- All ids ever published. -/
  published : List Uuid

namespace Cluster

/-- A cluster with empty logs. -/
def fresh (nodes : List NodeId) (shard : Nat) (fsync : FsyncMode) (p : Placement) : Cluster where
  nodes := nodes
  shard := shard
  fsync := fsync
  placements := [p]
  replicas _ :=
    { log := .empty, committed := 0, removed := [], placement := p, lease := false, blocked := false
      wasLeader := false, catchUp := none, mustHold := [] }
  publishings := []
  handlers := []
  acks := []
  acknowledged := []
  published := []

def setReplica (s : Cluster) (n : NodeId) (r : Replica) : Cluster :=
  { s with replicas := Function.update s.replicas n r }

def setPublishing (s : Cluster) (i : Nat) (p : Publishing) : Cluster :=
  { s with publishings := s.publishings.set i p }

/-! ## Catch-up -/

def withCatchUp (r : Replica) (c : CatchUp) : Replica := { r with catchUp := some c }

/-- Begin with the first of the topics. -/
def beginTopic (r : Replica) (topics : List String) (peers : List NodeId) : Replica :=
  withCatchUp r ⟨topics, peers, .probing peers r.log.records.length (r.committed - 1) none, []⟩

/-- `catch_up_shard` returned `Ok`: the shard is marked ready. -/
def markReady (s : Cluster) (r : Replica) : Replica :=
  { r with catchUp := none, blocked := false, mustHold := s.acknowledged }

/-- `catch_up_shard` returned an error: the shard stays fenced and is tried again. -/
def giveUp (r : Replica) : Replica :=
  { r with catchUp := none, blocked := true, wasLeader := false }

/-- The better of two answers; the first of equals. -/
def betterPage (best : Option (NodeId × CatchUpPage)) (peer : NodeId) (page : CatchUpPage) :
    Option (NodeId × CatchUpPage) :=
  match best with
  | some (source, current) =>
    if current.committedHwm < page.committedHwm then some (peer, page) else some (source, current)
  | none => some (peer, page)

/-- The next peer answers the probe, or fails to. -/
def probe (s : Cluster) (r : Replica) (ok : Bool) : Option Replica :=
  match r.catchUp with
  | some ⟨topic :: topics, peers, .probing (peer :: todo) localLeo probeFrom best, answered⟩ =>
    if ok then
      let page := (s.replicas peer).catchUpRange topic probeFrom 4096
      some (withCatchUp r ⟨topic :: topics, peers,
        .probing todo localLeo probeFrom (betterPage best peer page), answered ++ [peer]⟩)
    else
      some (withCatchUp r ⟨topic :: topics, peers, .probing todo localLeo probeFrom best, answered⟩)
  | _ => none

/-- All peers were asked. -/
def choose (r : Replica) : Option Replica :=
  match r.catchUp with
  | some ⟨topics, peers, .probing [] localLeo _ best, answered⟩ =>
    match best with
    | none => some (giveUp r)
    | some (source, page) =>
      if page.committedHwm < localLeo then some (giveUp r)
      else some (withCatchUp r
        ⟨topics, peers, .applying source page.committedHwm page.frames none, answered⟩)
  | _ => none

/-- The next frame of the page. -/
def applyFrame (r : Replica) : Option Replica :=
  match r.catchUp with
  | some ⟨topics, peers, .applying source hwm (f :: frames) _, answered⟩ =>
    match r.appendRawFrame f with
    | some r' => some (withCatchUp r'
        ⟨topics, peers, .applying source hwm frames (some f.offset), answered⟩)
    | none => some (giveUp r)
  | _ => none

/-- The end of a page: wait for the commit of its frames, then go on with the next topic, finish, or
ask the source for the next page. -/
def nextPage (s : Cluster) (r : Replica) (ok : Bool) : Option Replica :=
  match r.catchUp with
  | some ⟨topic :: topics, peers, .applying source hwm [] last, answered⟩ =>
    if last.all (· < r.committed) then
      let leo := r.log.records.length
      if hwm ≤ leo then
        match topics with
        | [] => some (s.markReady r)
        | next :: rest => some (beginTopic r (next :: rest) peers)
      else if ok then
        let page := (s.replicas source).catchUpRange topic leo 4096
        if page.frames = [] ∧ leo < page.committedHwm then some (giveUp r)
        else some (withCatchUp r
          ⟨topic :: topics, peers, .applying source page.committedHwm page.frames none, answered⟩)
      else some (giveUp r)
    else none
  | _ => none

/-! ## The machine -/

inductive Event where
  /-- The controller commits a command. -/
  | command (c : ControllerCommand)
  /-- A node applies the `i`th placement, and gains or loses contact with the controller. -/
  | observe (n : NodeId) (i : Nat) (lease : Bool)
  /-- `prepare_record` on the leader. -/
  | startPublish (n : NodeId)
  /-- `append_prepared_batch` of publish `i`. -/
  | append (i : Nat) (items : List Item)
  /-- Publish `i` reads the epoch and the targets and sends its request. -/
  | send (i : Nat)
  /-- The request of publish `i` reaches a target. -/
  | accept (i : Nat) (peer : NodeId)
  | appendFrame (h : Nat)
  /-- `wait_committed` of handler `h` returned and the ack is sent. -/
  | finish (h : Nat)
  | receive (i : Nat) (peer : NodeId)
  /-- Publish `i` has its quorum and the local commit. -/
  | acknowledge (i : Nat)
  | flush (n : NodeId)
  /-- An offset is purged or its segment collected. -/
  | remove (n : NodeId) (offset : Nat)
  /-- The health monitor sees that the node leads the shard and starts `catch_up_shard`. -/
  | gain (n : NodeId) (topics : List String) (peers : List NodeId)
  /-- It sees that the node leads it no more. -/
  | lose (n : NodeId)
  | probe (n : NodeId) (ok : Bool)
  | choose (n : NodeId)
  | applyFrame (n : NodeId)
  | nextPage (n : NodeId) (ok : Bool)
  /-- The process dies and starts again on what the crash left of its log. -/
  | restart (n : NodeId) (keep : Nat)
  deriving DecidableEq

/-- A step of the catch-up of one node. -/
def catchUpStep (s : Cluster) (n : NodeId) (r : Option Replica) : Option Cluster :=
  r.map (s.setReplica n)

def restart (s : Cluster) (n : NodeId) (keep : Nat) : Cluster :=
  let r := s.replicas n
  let log := r.log.crash keep
  { s with
    replicas := Function.update s.replicas n
      { r with
        log := log
        committed := log.records.length
        lease := false
        blocked := false
        wasLeader := false
        catchUp := none
        mustHold := [] }
    publishings := s.publishings.map fun p => if p.leader = n then { p with alive := false } else p
    handlers := s.handlers.filter fun h => decide (h.peer ≠ n) }

/-- The append of publish `i`. -/
def publishItems (s : Cluster) (i : Nat) (p : Publishing) (items : List Item) : Cluster :=
  let r := s.replicas p.leader
  let log := r.log.append items
  let frames := framesFrom log.records r.log.records.length
  { (s.setReplica p.leader { r with log := log }).setPublishing i { p with frames := frames } with
    published := s.published ++ logIds items }

/-- The request of a publish, as its leader sees the shard. -/
def requestOf (s : Cluster) (p : Publishing) : ReplicateRequest :=
  let placement := (s.replicas p.leader).placement
  let (targets, quorum) := placement.replicationTargets s.nodes p.leader
  ⟨placement.leaderTerm, targets, quorum⟩

/-- The end of a list of frames: one past the last offset. -/
def endOffset (frames : List ReplicaFrame) : Nat :=
  match frames.getLast? with
  | some f => f.offset + 1
  | none => 0

def step (s : Cluster) : Event → Option Cluster
  | .command c =>
    s.placements.getLast?.bind fun p =>
      (applyCommand s.nodes s.shard p c).map fun p' => { s with placements := s.placements ++ [p'] }
  | .observe n i lease =>
    s.placements[i]?.map fun p =>
      s.setReplica n { s.replicas n with placement := p, lease := lease }
  | .startPublish n =>
    if (s.replicas n).isLeader n then
      some { s with publishings := s.publishings ++ [⟨n, true, [], none, []⟩] }
    else none
  | .append i items =>
    s.publishings[i]?.bind fun p =>
      if p.alive ∧ p.frames = [] ∧ items ≠ [] then some (s.publishItems i p items) else none
  | .send i =>
    s.publishings[i]?.bind fun p =>
      if p.alive ∧ p.frames ≠ [] ∧ p.request = none then
        some (s.setPublishing i { p with request := some (s.requestOf p) })
      else none
  | .accept i peer =>
    s.publishings[i]?.bind fun p => p.request.bind fun request =>
      if peer ∈ request.targets ∧
          (s.replicas peer).validateReplicationEpoch p.leader request.leaderEpoch then
        some { s with handlers := s.handlers ++ [⟨i, peer, 0⟩] }
      else none
  | .appendFrame h =>
    s.handlers[h]?.bind fun handler => s.publishings[handler.publishing]?.bind fun p =>
      p.frames[handler.done]?.map fun f =>
        match (s.replicas handler.peer).appendRawFrame f with
        | some r => { s.setReplica handler.peer r with
            handlers := s.handlers.set h { handler with done := handler.done + 1 } }
        | none => { s with handlers := s.handlers.eraseIdx h }
  | .finish h =>
    s.handlers[h]?.bind fun handler => s.publishings[handler.publishing]?.bind fun p =>
      if handler.done = p.frames.length ∧
          endOffset p.frames ≤ (s.replicas handler.peer).committed then
        some { s with
          handlers := s.handlers.eraseIdx h
          acks := s.acks ++ [(handler.publishing, handler.peer)] }
      else none
  | .receive i peer =>
    s.publishings[i]?.bind fun p =>
      if (i, peer) ∈ s.acks ∧ p.alive ∧ peer ∉ p.acked then
        some (s.setPublishing i { p with acked := peer :: p.acked })
      else none
  | .acknowledge i =>
    s.publishings[i]?.bind fun p => p.request.bind fun request =>
      if p.alive ∧ endOffset p.frames ≤ (s.replicas p.leader).committed ∧
          request.quorum ≤ p.acked.length + 1 then
        some { s.setPublishing i { p with alive := false } with
          acknowledged := s.acknowledged ++ p.frames.map fun f => (f.offset, f.id) }
      else none
  | .flush n =>
    let r := s.replicas n
    some (s.setReplica n { r with
      log := if s.fsync = .os then r.log else r.log.sync
      committed := r.log.records.length })
  | .remove n offset =>
    let r := s.replicas n
    some (s.setReplica n { r with removed := offset :: r.removed })
  | .gain n topics peers =>
    let r := s.replicas n
    if n ∈ s.nodes ∧ r.electLeader = some n ∧ !r.wasLeader ∧ r.catchUp = none ∧
        peers.all fun peer => peer ∈ s.nodes ∧ peer ≠ n then
      let r' := { r with wasLeader := true, blocked := true }
      some (s.setReplica n
        (if peers = [] ∨ topics = [] then s.markReady r' else beginTopic r' topics peers))
    else none
  | .lose n =>
    let r := s.replicas n
    if r.catchUp = none ∧ r.lease ∧ r.placement.leaderId ≠ n then
      some (s.setReplica n { r with wasLeader := false })
    else none
  | .probe n ok => s.catchUpStep n (s.probe (s.replicas n) ok)
  | .choose n => s.catchUpStep n (choose (s.replicas n))
  | .applyFrame n => s.catchUpStep n (applyFrame (s.replicas n))
  | .nextPage n ok => s.catchUpStep n (s.nextPage (s.replicas n) ok)
  | .restart n keep => some (s.restart n keep)

end Cluster

end BetterMQ
