import Mathlib.Data.Finset.Card
import BetterMQ.Replication.Acks

/-!
# The quorum of a publish

`replicate_batch_with_local` sends a batch to the replicas of its shard among the peers, waits for
the local fsync and counts the answers, itself first, until `min_isr` nodes hold the batch. Does its
`Ok` mean that `min_isr` replicas have fsynced every record?

* **`ok_means_min_isr_replicas`** — it does, for every placement, every answer and every order of
  answers, if the caller is one of the replicas, `min_isr` is at most their number, and the peers
  are distinct;
* **`outsider_counts_itself`** — it does not when the leader is no replica:
  `AcquireShardLeadership` gives a shard to any node, and that node counts itself.
-/

namespace BetterMQ

open Finset List

/-! ## Requests and answers -/

/-- `ReplicateError`, without the variants no modelled function returns. -/
inductive ReplicateError where
  | quorumNotReached (acked quorum : Nat)
  | invalidEpoch (detail : String)
  | epochTooLarge (bytes limit : Nat)
  | localNotDurable (required actual : Nat)
  deriving DecidableEq

structure ReplicateBatchRequest where
  tenantId : String
  topic : String
  partition : Nat
  leaderId : NodeId
  leaderEpoch : Nat
  firstOffset : Nat
  recordCount : Nat
  frames : List Bytes
  batchCrc : UInt32
  deriving DecidableEq

structure ReplicateBatchAck where
  nodeId : NodeId
  partition : Nat
  leaderEpoch : Nat
  durableHwm : Nat
  deriving DecidableEq

structure ReplicateOutcome where
  durableAcks : Nat
  quorum : Nat
  committedHwm : Nat
  deriving DecidableEq

variable {req : ReplicateBatchRequest} {c : Codec} {u : Unit}

namespace ReplicateBatchRequest

def maxEpochRecords : Nat := 65536

def fixedHeaderLen : Nat := 64

/-- `checked_add` on `u64`. -/
def checkedAdd (a b : Nat) : Except ReplicateError Nat :=
  if a + b < 2 ^ 64 then .ok (a + b) else .error (.invalidEpoch "offset range overflow")

def lastOffset (req : ReplicateBatchRequest) : Except ReplicateError Nat :=
  checkedAdd req.firstOffset (req.recordCount - 1)

def endOffset (req : ReplicateBatchRequest) : Except ReplicateError Nat := do
  checkedAdd (← req.lastOffset) 1

def crcForFrames (c : Codec) (frames : List Bytes) : UInt32 := c.crc32 frames.flatten

def validate (c : Codec) (req : ReplicateBatchRequest) : Except ReplicateError Unit := do
  ensure (req.leaderEpoch ≠ 2 ^ 64 - 1) (.invalidEpoch "leader epoch u64::MAX is reserved")
  let count := req.frames.length
  ensure (req.recordCount ≠ 0 ∧ req.recordCount = count ∧ count ≤ maxEpochRecords) (.invalidEpoch
    s!"invalid record count {req.recordCount} for {count} frames (limit {maxEpochRecords})")
  let _ ← req.endOffset
  let actual := crcForFrames c req.frames
  ensure (actual = req.batchCrc)
    (.invalidEpoch s!"batch crc mismatch: declared {req.batchCrc}, computed {actual}")

theorem recordCount_of_validate (h : req.validate c = .ok u) : req.recordCount ≠ 0 := by
  obtain ⟨_, -, h⟩ := exists_of_bind_eq_ok h
  obtain ⟨_, hcount, -⟩ := exists_of_bind_eq_ok h
  exact (ensure_eq_ok_iff.mp hcount).1

/-- `binary_len`: the header, the tenant, the topic, and each frame with its length. -/
def binaryLen (c : Codec) (req : ReplicateBatchRequest) : Except ReplicateError Nat := do
  req.validate c
  ensure (req.tenantId.utf8ByteSize < 2 ^ 16) (.invalidEpoch "tenant id is too long")
  ensure (req.topic.utf8ByteSize < 2 ^ 16) (.invalidEpoch "topic is too long")
  let len := fixedHeaderLen + req.tenantId.utf8ByteSize + req.topic.utf8ByteSize +
    (req.frames.map fun frame => 4 + frame.length).sum
  ensure (len < 2 ^ 64) (.invalidEpoch "epoch length overflow")
  return len

/-- The answer of a peer counts: it comes from that peer, speaks of this request, and its watermark
covers the batch. -/
def acceptsAck (req : ReplicateBatchRequest) (required : Nat) (peer : NodeId) :
    Option ReplicateBatchAck → Bool
  | some ack =>
    decide (ack.nodeId = peer ∧ ack.partition = req.partition ∧
      ack.leaderEpoch = req.leaderEpoch ∧ required ≤ ack.durableHwm)
  | none => false

end ReplicateBatchRequest

/-! ## The count -/

/-- The loop that reads the answers until `quorum` nodes have the batch. -/
def countAcks (quorum : Nat) : Nat → List Bool → Nat
  | acked, [] => acked
  | acked, ok :: rest =>
    if acked < quorum then countAcks quorum (if ok then acked + 1 else acked) rest else acked

/-- The local end of the wait, before any answer is read. -/
def awaitLocal (required : Nat) (localDurable : Except ReplicateError Nat) :
    Except ReplicateError Unit := do
  let actual ← localDurable
  ensure (required ≤ actual) (.localNotDurable required actual)

/-- `replicate_batch_with_local` on node `self`. `answers` are the peers in the order in which their
answers arrive, `none` for a request that failed. -/
def replicateBatchWithLocal (c : Codec) (nodes : List NodeId) (placement : Placement)
    (self : NodeId) (maxEpochBytes : Nat) (req : ReplicateBatchRequest)
    (localDurable : Except ReplicateError Nat)
    (answers : List (NodeId × Option ReplicateBatchAck)) :
    Except ReplicateError ReplicateOutcome := do
  req.validate c
  let required ← req.endOffset
  if nodes.length ≤ 1 then
    awaitLocal required localDurable
    return ⟨1, 1, required⟩
  let len ← req.binaryLen c
  ensure (len ≤ maxEpochBytes) (.epochTooLarge len maxEpochBytes)
  ensure (len < 2 ^ 32) (.epochTooLarge len (2 ^ 32 - 1))
  let (_, quorum) := placement.replicationTargets nodes self
  awaitLocal required localDurable
  let acked := countAcks quorum 1 (answers.map fun (peer, ack) => req.acceptsAck required peer ack)
  ensure (quorum ≤ acked) (.quorumNotReached acked quorum)
  return ⟨acked, quorum, required⟩

theorem countAcks_le (quorum acked : Nat) (oks : List Bool) :
    countAcks quorum acked oks ≤ acked + oks.count true := by
  induction oks generalizing acked with
  | nil => exact Nat.le_refl _
  | cons ok rest ih =>
    rw [countAcks]
    split
    · refine Nat.le_trans (ih _) ?_
      cases ok with
      | true => rw [if_pos rfl, count_cons_self]; omega
      | false => rw [if_neg Bool.false_ne_true, count_cons_of_ne (by decide)]
    · exact Nat.le_add_right _ _

variable {localDurable : Except ReplicateError Nat} {required : Nat}

theorem awaitLocal_ok (h : awaitLocal required localDurable = .ok u) :
    ∃ hwm, localDurable = .ok hwm ∧ required ≤ hwm := by
  obtain ⟨hwm, hlocal, hle⟩ := exists_of_bind_eq_ok h
  exact ⟨hwm, hlocal, ensure_eq_ok_iff.mp hle⟩

variable {answers : List (NodeId × Option ReplicateBatchAck)} {placement : Placement}
  {nodes : List NodeId} {self : NodeId}

/-- What an `Ok` says about the call: the local log is durable to the end of the batch, and with
more than one node enough answers count. -/
theorem replicateBatchWithLocal_ok {maxEpochBytes : Nat} {outcome : ReplicateOutcome}
    (h : replicateBatchWithLocal c nodes placement self maxEpochBytes req
      localDurable answers = .ok outcome) :
    req.recordCount ≠ 0 ∧ ∃ required, req.endOffset = .ok required ∧
      (∃ hwm, localDurable = .ok hwm ∧ required ≤ hwm) ∧
      (nodes.length ≤ 1 ∨ placement.quorum nodes
        ≤ 1 + (answers.filter fun x => req.acceptsAck required x.1 x.2).length) := by
  obtain ⟨_, hvalid, h⟩ := exists_of_bind_eq_ok h
  obtain ⟨required, hend, h⟩ := exists_of_bind_eq_ok h
  refine ⟨ReplicateBatchRequest.recordCount_of_validate hvalid, required, hend, ?_⟩
  split at h
  · next halone =>
    obtain ⟨_, hlocal, -⟩ := exists_of_bind_eq_ok h
    exact ⟨awaitLocal_ok hlocal, .inl halone⟩
  · obtain ⟨_, -, h⟩ := exists_of_bind_eq_ok h
    obtain ⟨_, -, h⟩ := exists_of_bind_eq_ok h
    obtain ⟨_, -, h⟩ := exists_of_bind_eq_ok h
    obtain ⟨_, hlocal, h⟩ := exists_of_bind_eq_ok h
    obtain ⟨_, hquorum, -⟩ := exists_of_bind_eq_ok h
    refine ⟨awaitLocal_ok hlocal, .inr ?_⟩
    refine Nat.le_trans (ensure_eq_ok_iff.mp hquorum) (Nat.le_trans (countAcks_le _ _ _) ?_)
    rw [count_eq_countP, countP_map, countP_eq_length_filter]
    refine Nat.le_of_eq (congrArg (fun l => 1 + List.length l) (filter_congr fun x _ => ?_))
    exact beq_true _

/-! ## Replicas that have the batch -/

namespace Cluster

variable {s : Cluster}

/-- The request for the records of a publish. -/
def batchRequest (c : Codec) (tenantId topic : String) (shard leaderEpoch : Nat) (p : Publishing) :
    ReplicateBatchRequest :=
  let frames := p.frames.map fun f => frameBytes c f.item
  { tenantId := tenantId
    topic := topic
    partition := shard
    leaderId := p.leader
    leaderEpoch := leaderEpoch
    firstOffset := (p.frames.head?.map fun f => f.offset).getD 0
    recordCount := p.frames.length
    frames := frames
    batchCrc := ReplicateBatchRequest.crcForFrames c frames }

/-- Node `n` has fsynced every record of a publish. -/
def HoldsBatch (s : Cluster) (p : Publishing) (n : NodeId) : Prop :=
  ∀ f ∈ p.frames, s.Durable n (f.offset, f.id)

/-- The condition on the placement a leader reads: it is one of its replicas, there are `min_isr` of
them, and a node that knows no peer needs none. -/
structure CountsReplicas (nodes : List NodeId) (placement : Placement) (caller : NodeId) :
    Prop where
  distinct : nodes.Nodup
  leader : caller ∈ placement.replicaIds nodes
  enough : placement.minIsr ≤ (placement.replicaIds nodes).length
  alone : nodes.length ≤ 1 → placement.quorum nodes ≤ 1

theorem checkedAdd_ok {a b n : Nat} (h : ReplicateBatchRequest.checkedAdd a b = .ok n) :
    n = a + b := by
  unfold ReplicateBatchRequest.checkedAdd at h
  split at h
  · cases h
    rfl
  · cases h

theorem endOffset_batchRequest {tenantId topic : String} {shard leaderEpoch : Nat} {p : Publishing}
    (hconsecutive : Consecutive p.frames) (hne : p.frames ≠ [])
    (h : (batchRequest c tenantId topic shard leaderEpoch p).endOffset = .ok required) :
    required = endOffset p.frames := by
  obtain ⟨last, hlast, hend⟩ := exists_of_bind_eq_ok h
  obtain ⟨f, hf, hoffset⟩ := hconsecutive.endOffset hne
  have hfirst : (batchRequest c tenantId topic shard leaderEpoch p).firstOffset = f.offset := by
    show (p.frames.head?.map _).getD 0 = f.offset
    rw [Option.mem_def.mp hf]
    rfl
  have hcount : (batchRequest c tenantId topic shard leaderEpoch p).recordCount
    = p.frames.length := rfl
  have hpos : 0 < p.frames.length := length_pos_of_ne_nil hne
  rw [checkedAdd_ok hend, checkedAdd_ok hlast]
  omega

theorem quorum_of_enough (h : placement.minIsr ≤ (placement.replicaIds nodes).length) :
    placement.minIsr ≤ placement.quorum nodes := by
  unfold Placement.quorum
  dsimp only
  split <;> omega

/-- The peers whose answers count are distinct replicas, none of them the caller. -/
theorem counted_peers (hnodes : nodes.Nodup)
    (hpeers : (answers.map Prod.fst).Subperm (placement.replicationTargets nodes self).1)
    (ok : NodeId × Option ReplicateBatchAck → Bool) :
    ((answers.filter ok).map Prod.fst).Nodup ∧
      ∀ peer ∈ (answers.filter ok).map Prod.fst, peer ∈ placement.replicaIds nodes ∧
        peer ≠ self := by
  have hsub := ((filter_sublist (p := ok)).map Prod.fst).subperm.trans hpeers
  have htargets : (placement.replicationTargets nodes self).1.Nodup :=
    (hnodes.filter _).filter _
  refine ⟨?_, fun peer hpeer => ?_⟩
  · obtain ⟨l, hperm, hl⟩ := hsub
    exact hperm.nodup_iff.mp (htargets.sublist hl)
  · obtain ⟨hother, hreplica⟩ := mem_filter.mp (hsub.subset hpeer)
    exact ⟨of_decide_eq_true hreplica, of_decide_eq_true (mem_filter.mp hother).2⟩

/-- **`Ok` means `min_isr` replicas.** In every state of a run from empty logs, in which every
restart finds only fsynced records, let a publish be running, and let some of its peers have
answered, in any order, each ack sent by the node it names. If `replicate_batch_with_local` returns
`Ok` on a placement that counts replicas, at least `min_isr` of them have fsynced every record of
the batch. -/
theorem ok_means_min_isr_replicas {nodes : List NodeId} {shard : Nat} {fsync : FsyncMode}
    {p₀ : Placement} {events : List Event} (hfsync : fsync ≠ .os)
    (hrun : Run step RestartOk (fresh nodes shard fsync p₀) events s)
    {i : Nat} {p : Publishing} (hp : s.publishings[i]? = some p) (halive : p.alive = true)
    {placement : Placement} (hcounts : CountsReplicas nodes placement p.leader)
    {answers : List (NodeId × Option ReplicateBatchAck)}
    (hpeers : (answers.map Prod.fst).Subperm (placement.replicationTargets nodes p.leader).1)
    (hacks : ∀ x ∈ answers, ∀ ack ∈ x.2, (i, ack.nodeId) ∈ s.acks)
    {localDurable : Except ReplicateError Nat}
    (hlocal : ∀ hwm, localDurable = .ok hwm → hwm ≤ (s.replicas p.leader).committed)
    {c : Codec} {tenantId topic : String} {leaderEpoch maxEpochBytes : Nat}
    {outcome : ReplicateOutcome}
    (hok : replicateBatchWithLocal c nodes placement p.leader maxEpochBytes
      (batchRequest c tenantId topic shard leaderEpoch p) localDurable answers = .ok outcome) :
    ∃ Q ⊆ (placement.replicaIds nodes).toFinset, placement.quorum nodes ≤ Q.card ∧
      placement.minIsr ≤ Q.card ∧ ∀ n ∈ Q, s.HoldsBatch p n := by
  obtain ⟨hfsynced, hpublishes⟩ : Fsynced s ∧ PublishesOk s := by
    refine hrun.invariant (fun s => Fsynced s ∧ PublishesOk s) ?_
      ⟨fresh_fsynced hfsync, fresh_publishesOk⟩
    rintro t e t' ⟨hfsynced, hpublishes⟩ hok hstep
    exact ⟨hfsynced.step hok hstep, hpublishes.step hfsynced hstep⟩
  have hpublish := hpublishes.publishings i p hp
  obtain ⟨hcount, required, hend, ⟨hwm, hhwm, hle⟩, henough⟩ := replicateBatchWithLocal_ok hok
  have hne : p.frames ≠ [] := fun hnil => hcount (by show p.frames.length = 0; rw [hnil]; rfl)
  have hrequired := endOffset_batchRequest hpublish.consecutive hne hend
  -- the caller waited for its own fsync
  have hown : s.HoldsBatch p p.leader := by
    intro f hf
    refine ⟨hpublish.own halive f hf, ?_⟩
    have hlt := hpublish.consecutive.lt_endOffset hf
    have hcommitted := hlocal hwm hhwm
    rw [← hfsynced.committed p.leader]
    omega
  -- and each counted peer for its own
  let ok : NodeId × Option ReplicateBatchAck → Bool := fun x =>
    (batchRequest c tenantId topic shard leaderEpoch p).acceptsAck required x.1 x.2
  obtain ⟨hdistinct, hreplicas⟩ := counted_peers hcounts.distinct hpeers ok
  set counted := (answers.filter ok).map Prod.fst
  have hheld : ∀ peer ∈ counted, s.HoldsBatch p peer := by
    intro peer hpeer
    obtain ⟨⟨peer, answer⟩, hmem, rfl⟩ := mem_map.mp hpeer
    obtain ⟨hanswer, haccepts⟩ := mem_filter.mp hmem
    cases answer with
    | none => cases haccepts
    | some ack =>
      obtain ⟨hnode, -⟩ := of_decide_eq_true haccepts
      obtain ⟨p', hp', hack⟩ := hpublishes.acks _ (hacks _ hanswer ack rfl)
      rw [hp] at hp'
      cases hp'
      rw [← hnode]
      exact hack.durable
  have hself : p.leader ∉ counted.toFinset := fun hmem =>
    (hreplicas _ (mem_toFinset.mp hmem)).2 rfl
  refine ⟨insert p.leader counted.toFinset, ?_, ?_⟩
  · refine insert_subset (mem_toFinset.mpr hcounts.leader) fun peer hpeer => ?_
    exact mem_toFinset.mpr (hreplicas peer (mem_toFinset.mp hpeer)).1
  · rw [card_insert_of_notMem hself, toFinset_card_of_nodup hdistinct, length_map]
    have hquorum : placement.quorum nodes ≤ (answers.filter ok).length + 1 := by
      rcases henough with halone | hquorum
      · exact Nat.le_trans (hcounts.alone halone) (Nat.le_add_left _ _)
      · exact hquorum.trans (Nat.le_of_eq (Nat.add_comm _ _))
    refine ⟨hquorum, Nat.le_trans (quorum_of_enough hcounts.enough) hquorum, fun n hn => ?_⟩
    rcases mem_insert.mp hn with rfl | hpeer
    · exact hown
    · exact hheld n (mem_toFinset.mp hpeer)

/-! ## Runs -/

instance (s : Cluster) (e : Event) : Decidable (RestartOk s e) := by
  apply @Event.casesOn (fun e => Decidable (RestartOk s e)) e <;> intros <;> unfold RestartOk <;>
    infer_instance

/-- A publish of the record 10 at offset 0. -/
def firstPublish (leader : NodeId) (request : ReplicateRequest) : Publishing :=
  ⟨leader, true, [⟨0, (plainRecord 10, []), none⟩], some request, []⟩

/-- Node `peer` takes the request of publish 0 and acks it; the leader flushes. -/
def fsyncOn (peer leader : NodeId) : List Event :=
  [.accept 0 peer, .appendFrame 0, .flush peer, .finish 0, .flush leader]

/-- Node 1 publishes a record that nodes 1 and 3 fsync. -/
def replicaPublish : List Event := takeOver 1 0 ++ publishPlain 1 0 10 ++ fsyncOn 3 1

theorem replicaPublish_on_two_replicas : ∃ s,
    Run step RestartOk threeNodes replicaPublish s ∧
      ∃ Q ⊆ ({1, 2, 3} : Finset NodeId), 2 ≤ Q.card ∧
        ∀ n ∈ Q, s.HoldsBatch (firstPublish 1 ⟨1, [2, 3], 2⟩) n := by
  obtain ⟨s, hs, hp, hacks, hcommitted⟩ : ∃ s, Run step RestartOk threeNodes replicaPublish s ∧
      s.publishings[0]? = some (firstPublish 1 ⟨1, [2, 3], 2⟩) ∧ s.acks = [(0, 3)] ∧
      (s.replicas 1).committed = 1 := by decide +kernel
  have hcounts : CountsReplicas [1, 2, 3] ⟨1, 1, [1, 2, 3], 2, []⟩
      (firstPublish 1 ⟨1, [2, 3], 2⟩).leader := ⟨by decide, by decide, by decide, by decide⟩
  -- the first answer is a failure, the second an ack
  have hpeers : (([(2, none), (3, some ⟨3, 0, 1, 1⟩)] :
    List (NodeId × Option ReplicateBatchAck)).map
      Prod.fst).Subperm ((⟨1, 1, [1, 2, 3], 2, []⟩ : Placement).replicationTargets [1, 2, 3]
        (firstPublish 1 ⟨1, [2, 3], 2⟩).leader).1 := by decide
  have hlocal : ∀ hwm, (Except.ok 1 : Except ReplicateError Nat) = .ok hwm →
      hwm ≤ (s.replicas (firstPublish 1 ⟨1, [2, 3], 2⟩).leader).committed := by
    rintro hwm ⟨⟩
    exact Nat.le_of_eq hcommitted.symm
  have hok : replicateBatchWithLocal Bincode.codec [1, 2, 3] ⟨1, 1, [1, 2, 3], 2, []⟩
      (firstPublish 1 ⟨1, [2, 3], 2⟩).leader 1000000
      (batchRequest Bincode.codec "t" "orders" 0 1 (firstPublish 1 ⟨1, [2, 3], 2⟩)) (.ok 1)
      [(2, none), (3, some ⟨3, 0, 1, 1⟩)] = .ok ⟨2, 2, 1⟩ :=
    toOption_eq_some.mp (by decide +kernel)
  obtain ⟨Q, hQ, -, hcard, hheld⟩ :=
    ok_means_min_isr_replicas (by decide) hs hp rfl hcounts hpeers (by simp [hacks]) hlocal hok
  exact ⟨s, hs, Q, hQ, hcard, hheld⟩

/-- Nodes 1, 2 and 3 hold the shard; node 4 is in the cluster. -/
def fourNodes : Cluster := fresh [1, 2, 3, 4] 0 .always ⟨1, 1, [1, 2, 3], 2, []⟩

/-- Node 4 is made the leader and publishes a record that nodes 4 and 1 fsync. -/
def outsiderPublish : List Event :=
  [.command (.acquireShardLeadership 4), .observe 4 1 true, .observe 1 1 true, .gain 4 [] []] ++
    publishPlain 4 0 10 ++ fsyncOn 1 4

/-- **A leader outside the replicas counts itself.** Its call returns `Ok` with one ack, and one
replica has the record though `min_isr` is 2. -/
theorem outsider_counts_itself : ∃ s p placement,
    Run step RestartOk fourNodes outsiderPublish s ∧ s.publishings[0]? = some p ∧ p.alive = true ∧
      placement ∈ s.placements ∧ placement = (s.replicas p.leader).placement ∧
      placement.minIsr = 2 ∧ (0, 1) ∈ s.acks ∧ (s.replicas p.leader).committed = 1 ∧
      replicateBatchWithLocal Bincode.codec s.nodes placement p.leader 1000000
        (batchRequest Bincode.codec "t" "orders" 0 2 p) (.ok 1) [(1, some ⟨1, 0, 2, 1⟩)]
        = .ok ⟨2, 2, 1⟩ ∧
      ∀ Q ⊆ (placement.replicaIds s.nodes).toFinset, (∀ n ∈ Q, s.HoldsBatch p n) → Q.card < 2 := by
  obtain ⟨s, hs, hp, hacks, hnodes, hplacements, hplacement, hcommitted, htwo, hthree⟩ : ∃ s,
      Run step RestartOk fourNodes outsiderPublish s ∧
      s.publishings[0]? = some (firstPublish 4 ⟨2, [1, 2, 3], 2⟩) ∧ s.acks = [(0, 1)] ∧
      s.nodes = [1, 2, 3, 4] ∧ ⟨4, 2, [1, 2, 3], 2, []⟩ ∈ s.placements ∧
      (s.replicas 4).placement = ⟨4, 2, [1, 2, 3], 2, []⟩ ∧ (s.replicas 4).committed = 1 ∧
      (s.replicas 2).log.records = [] ∧ (s.replicas 3).log.records = [] := by
    decide +kernel
  refine ⟨s, _, ⟨4, 2, [1, 2, 3], 2, []⟩, hs, hp, rfl, hplacements,
    hplacement.symm, rfl, by rw [hacks]; exact List.mem_singleton.mpr rfl, hcommitted, ?_, ?_⟩
  · rw [hnodes]
    exact toOption_eq_some.mp (by decide +kernel)
  · intro Q hQ hheld
    -- the logs of the other two replicas are empty
    have hempty : ∀ n, (s.replicas n).log.records = [] → n ∉ Q := by
      intro n hnil hn
      have hrecord := (hheld n hn _ (.head _)).1
      rw [HasRecord, hnil] at hrecord
      cases hrecord
    have hsub : Q ⊆ {1} := by
      intro n hn
      have hmem : n ∈ [1, 2, 3] := mem_toFinset.mp (hQ hn)
      have htwo := hempty 2 htwo
      have hthree := hempty 3 hthree
      grind
    exact Nat.lt_of_le_of_lt (card_le_card hsub) (by decide)

end Cluster

end BetterMQ
