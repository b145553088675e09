import BetterMQ.Partition.Publish
import BetterMQ.Storage.Layout
import Mathlib.Data.List.Perm.Basic

/-!
# Batches

`prepare_publish_batch`, `append_prepared_batch` and `finalize_prepared_batch` on batches of any
size, and `submit_local_leader_batch` over them, for a caller that is alone: no key is reserved but
its own, and those are in `local_owners`, so `reserve_dedup` is its index lookup.

The environment decides how every record and every shard group fares (`RequestFate`, `GroupFate`)
and in which order the tasks of a `JoinSet` finish (`Join`).
-/

namespace BetterMQ

/-! ## What the environment decides -/

/-- The fields of a publish request that the batch code reads itself. -/
structure Request where
  topic : String
  idempotencyKey : Option String
  deriving DecidableEq

/-- How the request fares before its append. -/
structure RequestFate where
  /-- `check_admission` lets it in. -/
  admitted : Bool
  /-- `decode_payload` and `validate_publish_request` accept it. -/
  valid : Bool
  /-- `get_dedup` can read the index. -/
  lookup : Bool
  /-- What `prepare_record` builds, or an error. -/
  draft : Option PreparedRecord

abbrev Requests := List (Request × RequestFate)

structure PreparedShardKey where
  partition : UInt32
  storageNamespace : String
  fenceGeneration : Option Nat
  deriving DecidableEq

/-- How a shard group fares. -/
structure GroupFate where
  append : Broker.AppendResult
  /-- The local commit and, in a cluster, the quorum. -/
  commit : Bool
  /-- The index write of `finalize_prepared_batch`. -/
  write : Bool

/-- The order in which the tasks of a `JoinSet` finish. -/
structure Join where
  arrange : {α : Type} → List α → List α
  perm : ∀ {α : Type} (xs : List α), (arrange xs).Perm xs

structure BatchEnv where
  fate : PreparedShardKey → GroupFate
  appendJoin : Join
  commitJoin : Join

/-! ## Preparing -/

/-- `PreparedShardBatch`. -/
structure ShardBatch where
  key : PreparedShardKey
  records : List PreparedRecord
  deriving DecidableEq

def ShardBatch.shard (g : ShardBatch) : ShardKey := ⟨g.key.storageNamespace, g.key.partition⟩

/-- `PreparedSlot`. -/
inductive Slot where
  | existing (response : PublishResponse)
  | awaiting (messageId : Uuid) (duplicate : Bool) (topicOverride : Option String)
  | final (response : PublishResponse)
  deriving DecidableEq

/-- `PreparedPublishBatch`, with the `local_owners` of the loop that builds it. -/
structure PreparedBatch where
  slots : List Slot
  batches : List ShardBatch
  owners : List (String × Uuid)
  deriving DecidableEq

def PreparedRecord.item (record : PreparedRecord) : Item := (record.header, record.payload)

/-- Push a record to the group of its key, a new one if there is none. -/
def addRecord (key : PreparedShardKey) (record : PreparedRecord) : List ShardBatch → List ShardBatch
  | [] => [⟨key, [record]⟩]
  | g :: gs =>
    if g.key = key then ⟨g.key, g.records ++ [record]⟩ :: gs else g :: addRecord key record gs

namespace Broker

def preparedKey (b : Broker) (record : PreparedRecord) : PreparedShardKey :=
  ⟨record.partition, b.storageNamespace record.topic, record.fenceGeneration⟩

/-- The tail of the loop: a slot, an owner and a place in a group for a new record. -/
def pushRecord (b : Broker) (p : PreparedBatch) (record : PreparedRecord) : PreparedBatch where
  slots := p.slots ++ [.awaiting record.header.id false none]
  batches := addRecord (b.preparedKey record) record p.batches
  owners :=
    match record.header.idempotencyKey with
    | some key => (key, record.header.id) :: p.owners
    | none => p.owners

/-- One turn of the loop of `prepare_publish_batch`; `none` is an error. -/
def prepareOne (b : Broker) (tenantId : String) (p : PreparedBatch) (request : Request)
    (fate : RequestFate) : Option PreparedBatch :=
  if fate.valid then
    match request.idempotencyKey with
    | none => fate.draft.map fun draft => b.pushRecord p (stamp tenantId none draft)
    | some key =>
      match p.owners.lookup key with
      | some messageId =>
        some { p with slots := p.slots ++ [.awaiting messageId true (some request.topic)] }
      | none =>
        if fate.lookup then
          match b.dedup (⟨tenantId, key⟩ : ReservationKey).dedupKey with
          | some entry =>
            some { p with slots := p.slots ++ [.existing (existing request.topic entry)] }
          | none => fate.draft.map fun draft => b.pushRecord p (stamp tenantId (some key) draft)
        else none
  else none

def prepareLoop (b : Broker) (tenantId : String) :
    PreparedBatch → Requests → Option PreparedBatch
  | p, [] => some p
  | p, (request, fate) :: requests =>
    (b.prepareOne tenantId p request fate).bind fun p' => b.prepareLoop tenantId p' requests

def preparePublishBatch (b : Broker) (tenantId : String) (requests : Requests) :
    Option PreparedBatch :=
  b.prepareLoop tenantId ⟨[], [], []⟩ requests

/-! ## Appending -/

/-- `AppendedShardBatch`: the records as they were prepared and as they were stored. The key is
there for the environment's choices. -/
structure AppendedBatch where
  key : PreparedShardKey
  records : List PreparedRecord
  appended : List StoredMessage

/-- `append_prepared_batch`; `none` is an error. -/
def appendPreparedBatch (b : Broker) (g : ShardBatch) (result : AppendResult) :
    Broker × Option AppendedBatch :=
  match g.records with
  | [] => (b, some ⟨g.key, [], []⟩)
  | first :: _ =>
    let shard := b.shardKey first.topic g.key.partition
    let items := g.records.map PreparedRecord.item
    match result with
    | .ok =>
      ({ b with logs := b.appendItems shard items (decide (b.fsync = .always)) },
        some ⟨g.key, g.records, messagesFrom g.key.partition (b.logs shard).records.length items⟩)
    | .error => (b, none)
    | .errorStored => ({ b with logs := b.appendItems shard items false }, none)

/-- The append tasks of a batch, joined: what they appended, and whether all succeeded. -/
def appendAll (b : Broker) (env : BatchEnv) :
    List ShardBatch → Broker × List AppendedBatch × Bool
  | [] => (b, [], true)
  | g :: gs =>
    match b.appendPreparedBatch g (env.fate g.key).append with
    | (b', some appended) =>
      let rest := b'.appendAll env gs
      (rest.1, appended :: rest.2.1, rest.2.2)
    | (b', none) =>
      let rest := b'.appendAll env gs
      (rest.1, rest.2.1, false)

/-! ## Finalizing -/

/-- The responses of a group by message id, in the order in which they enter the map. -/
def responsesOf (a : AppendedBatch) : List (Uuid × PublishResponse) :=
  (a.records.zip a.appended).map fun p =>
    (p.1.header.id, ⟨p.2.id, p.1.topic, p.1.partition, p.2.offset, false⟩)

/-- Fill a slot from the map; of two entries with one id the later stays in a map. -/
def settleSlot (responses : List (Uuid × PublishResponse)) : Slot → Slot
  | .awaiting messageId duplicate topicOverride =>
    match responses.reverse.lookup messageId with
    | some r => .final { r with duplicate := duplicate, topic := topicOverride.getD r.topic }
    | none => .awaiting messageId duplicate topicOverride
  | slot => slot

/-- The index rows of a group. -/
def dedupRows (tenantId : String) (a : AppendedBatch) : List (ReservationKey × DedupEntry) :=
  (a.records.zip a.appended).filterMap fun p =>
    p.1.header.idempotencyKey.map fun key => (⟨tenantId, key⟩, ⟨p.2.id, p.2.offset, p.2.partition⟩)

/-- `write_batch` on the index. -/
def writeRows (dedup : String → Option DedupEntry) :
    List (ReservationKey × DedupEntry) → String → Option DedupEntry
  | [] => dedup
  | (k, entry) :: rows => writeRows (Function.update dedup k.dedupKey (some entry)) rows

/-- `finalize_prepared_batch`; `none` is an error. A batch without rows is not written. -/
def finalizePreparedBatch (b : Broker) (tenantId : String) (slots : List Slot) (a : AppendedBatch)
    (commitDedup write : Bool) : Option (Broker × List Slot) :=
  if a.appended.length ≠ a.records.length then none
  else if (a.records.zip a.appended).any fun p =>
      decide (p.1.header.id ≠ p.2.id ∨ p.1.partition ≠ p.2.partition) then none
  else
    let rows := if commitDedup then dedupRows tenantId a else []
    if rows ≠ [] ∧ write = false then none
    else some ({ b with dedup := writeRows b.dedup rows }, slots.map (settleSlot (responsesOf a)))

/-- Finalize the committed groups one after the other; an error stops the batch. -/
def finalizeAll (b : Broker) (tenantId : String) (env : BatchEnv) :
    List Slot → List AppendedBatch → Broker × Option (List Slot)
  | slots, [] => (b, some slots)
  | slots, a :: as =>
    match b.finalizePreparedBatch tenantId slots a true (env.fate a.key).write with
    | some (b', slots') => b'.finalizeAll tenantId env slots' as
    | none => (b, none)

def finish : List Slot → Option (List PublishResponse)
  | [] => some []
  | .existing r :: slots | .final r :: slots => (finish slots).map (r :: ·)
  | .awaiting _ _ _ :: _ => none

/-! ## Submitting -/

/-- The errors `submit_local_leader_batch` reports. -/
inductive BatchError where
  | admission
  | preparation
  | append
  | commit
  | finalize
  | response
  deriving DecidableEq

/-- `IngestOutcome`. -/
structure Outcome where
  index : Nat
  topic : String
  result : Except BatchError PublishResponse

/-- A record of the batch, with its place in it. -/
abbrev Submitted := Nat × Request × RequestFate

def failedOutcomes (records : List Submitted) (error : BatchError) : List Outcome :=
  records.map fun r => ⟨r.1, r.2.1.topic, .error error⟩

section

variable (b : Broker) (tenantId : String) (env : BatchEnv)

/-- `submit_local_leader_batch` after the appends: commit, finalize, finish. -/
def commitAppended (slots : List Slot)
    (appended : List AppendedBatch) : Broker × Except BatchError (List PublishResponse) :=
  -- empty groups need no commit
  let waiting := appended.filter fun a => decide (a.appended ≠ [])
  if waiting.all fun a => (env.fate a.key).commit then
    match b.finalizeAll tenantId env slots (env.commitJoin.arrange waiting) with
    | (b', some slots') =>
      match finish slots' with
      | some responses => (b', .ok responses)
      | none => (b', .error .response)
    | (b', none) => (b', .error .finalize)
  else (b, .error .commit)

/-- `submit_local_leader_batch` on a prepared batch. -/
def publishPrepared (prepared : PreparedBatch) :
    Broker × Except BatchError (List PublishResponse) :=
  let (b', appended, ok) := b.appendAll env (env.appendJoin.arrange prepared.batches)
  if ok then b'.commitAppended tenantId env prepared.slots appended else (b', .error .append)

/-- `submit_local_leader_batch`, from `prepare_publish_batch` on. -/
def submitAdmitted (admitted : List Submitted) : Broker × List Outcome :=
  match b.preparePublishBatch tenantId (admitted.map Prod.snd) with
  | none => (b, failedOutcomes admitted .preparation)
  | some prepared =>
    match b.publishPrepared tenantId env prepared with
    | (b', .error error) => (b', failedOutcomes admitted error)
    | (b', .ok responses) =>
      (b', (admitted.zip responses).map fun p => ⟨p.1.1, p.1.2.1.topic, .ok p.2⟩)

end

/-- The records of a batch that `check_admission` lets in. -/
def admitted (requests : Requests) : List Submitted :=
  (requests.zipIdx.map Prod.swap).filter fun r => r.2.2.admitted

/-- `submit_batch` for records without a delay, on the leader of all their shards. -/
def submitBatch (b : Broker) (tenantId : String) (env : BatchEnv)
    (requests : Requests) : Broker × List Outcome :=
  let rejected := failedOutcomes
    ((requests.zipIdx.map Prod.swap).filter fun r => !r.2.2.admitted) .admission
  if admitted requests = [] then (b, rejected)
  else
    let (b', outcomes) := b.submitAdmitted tenantId env (admitted requests)
    (b', (rejected ++ outcomes).mergeSort fun o o' => decide (o.index ≤ o'.index))

end Broker

end BetterMQ
