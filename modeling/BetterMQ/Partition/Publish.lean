import BetterMQ.Lib.DurableLog
import BetterMQ.Lib.Run
import BetterMQ.Storage.Log
import Mathlib.Data.Finset.Basic
import Mathlib.Logic.Function.Basic

/-!
# Concurrent publishes on one broker

The broker keeps three things for idempotent publishing: the set of idempotency keys that are
being published (`DedupReservations`), the index from a key to the stored record (`get_dedup`,
`write_batch`), and the shard logs. A publish touches them one at a time, so the machine here
advances one call by one such access at a step: any number of calls, in any order.

A call is `Broker::publish` or `publish_on_leader`. Both run `prepare_publish_batch`,
`append_prepared_batch` and `finalize_prepared_batch` on a batch of one request; a call on a
clustered leader leaves the index to `commit_publish_dedup`, after the quorum.

The shard logs are `DurableLog`s: the records, and how many of them an fsync has covered.
-/

namespace BetterMQ

/-! ## Keys, entries, shards -/

structure ReservationKey where
  tenantId : String
  idempotencyKey : String
  deriving DecidableEq

def ReservationKey.dedupKey (k : ReservationKey) : String :=
  "dedup:" ++ k.tenantId ++ ":" ++ k.idempotencyKey

structure DedupEntry where
  messageId : Uuid
  offset : Nat
  partition : UInt32
  deriving DecidableEq

/-- The key of a log in `shards`: the storage namespace and the partition. -/
structure ShardKey where
  namespaceName : String
  partition : UInt32
  deriving DecidableEq

/-- The key a record was published under. -/
def LogRecord.reservationKey (r : LogRecord) : Option ReservationKey :=
  r.idempotencyKey.map fun key => ⟨r.tenantId, key⟩

/-! ## Calls -/

/-- `PublishResponse`, without the fields that callers of the broker fill in. -/
structure PublishResponse where
  messageId : Uuid
  topic : String
  partition : UInt32
  offset : Nat
  duplicate : Bool
  deriving DecidableEq

def PublishResponse.entry (r : PublishResponse) : DedupEntry := ⟨r.messageId, r.offset, r.partition⟩

/-- `PreparedRecord`, without the reservation token. -/
structure PreparedRecord where
  topic : String
  partition : UInt32
  header : LogRecord
  payload : Bytes
  fenceGeneration : Option Nat
  deriving DecidableEq

/-- `Broker::publish`, or `publish_on_leader` on a node of a cluster or on its own. -/
inductive Caller where
  | publish
  | publishOnLeader (clustered : Bool)
  deriving DecidableEq

/-- The `commit_dedup` argument of `publish_inner`. -/
def Caller.commitDedup : Caller → Bool
  | .publish => true
  | .publishOnLeader clustered => !clustered

/-- Where a call stands. -/
inductive Phase where
  /-- At the head of the loop of `reserve_dedup`. -/
  | waiting
  /-- The key was not pending. -/
  | checked
  /-- The index had no entry. -/
  | missed
  /-- The reservation is held (or the request has no key). -/
  | reserved
  | prepared (record : PreparedRecord)
  /-- `append_prepared_batch` returned; the reservation is held. -/
  | appended (response : PublishResponse)
  /-- The index has the entry; the reservation is held. -/
  | written (response : PublishResponse)
  /-- `publish_on_leader` waits for the local commit or the quorum; no reservation is held. -/
  | replicating (response : PublishResponse)
  /-- `commit_publish_dedup` is about to write. -/
  | committing (response : PublishResponse)
  /-- `commit_publish_dedup` is about to release the key. -/
  | releasing (response : PublishResponse)
  /-- An error is on its way out and the token is about to be dropped; `stored` is what the call
  left in the log. -/
  | dropping (stored : Option DedupEntry)
  | failed (stored : Option DedupEntry)
  | returned (response : PublishResponse)
  deriving DecidableEq

structure Call where
  caller : Caller
  tenantId : String
  topic : String
  idempotencyKey : Option String
  phase : Phase
  deriving DecidableEq

def Call.key (c : Call) : Option ReservationKey := c.idempotencyKey.map fun key => ⟨c.tenantId, key⟩

/-- What the caller does with the response of the broker. -/
def Call.respond (c : Call) (response : PublishResponse) : Phase :=
  match c.caller with
  | .publish => .returned response
  | .publishOnLeader _ => .replicating response

/-! ## The broker -/

structure Broker where
  /-- `ShardLayout::is_physical`. -/
  physical : Bool
  fsync : FsyncMode
  /-- `DedupReservations::pending`. -/
  pending : Finset ReservationKey
  /-- The dedup rows of the metadata store. -/
  dedup : String → Option DedupEntry
  logs : ShardKey → DurableLog Item
  calls : List Call

namespace Broker

def storageNamespace (b : Broker) (topic : String) : String :=
  if b.physical then "__physical" else topic

def shardKey (b : Broker) (topic : String) (partition : UInt32) : ShardKey :=
  ⟨b.storageNamespace topic, partition⟩

/-- A broker nobody has published to. -/
def fresh (physical : Bool) (fsync : FsyncMode) : Broker where
  physical := physical
  fsync := fsync
  pending := ∅
  dedup _ := none
  logs _ := .empty
  calls := []

/-! ## Atomic actions -/

inductive AppendResult where
  | ok
  /-- Nothing was written. -/
  | error
  /-- The record is in the log, and the fsync or the roll after it failed. -/
  | errorStored
  deriving DecidableEq

/-- The accesses of a call to the shared state, with what the environment decides. -/
inductive Action where
  /-- Lock `pending` and wait while it contains the key. -/
  | waitPending
  | getDedup (ok : Bool)
  /-- Lock `pending` and insert the key. -/
  | insertPending
  /-- `prepare_record`: an error, or the record it builds. -/
  | prepareRecord (draft : Option PreparedRecord)
  | appendBatch (result : AppendResult)
  /-- The `write_batch` of `finalize_prepared_batch`. -/
  | writeDedup (ok : Bool)
  /-- `ReservationToken::release` in `finalize_prepared_batch`. -/
  | release
  /-- `replicate_if_needed`. -/
  | replicate (ok : Bool)
  /-- The `write_batch` of `commit_publish_dedup`. -/
  | commitDedup (ok : Bool)
  /-- The release of `commit_publish_dedup`. -/
  | releaseCommitted
  /-- `ReservationToken::drop`. -/
  | dropToken
  deriving DecidableEq

/-- How an action changes the shared state. -/
structure Effect where
  phase : Phase
  /-- Insert the call's key into `pending`. -/
  reserve : Bool := false
  /-- Remove it. -/
  release : Bool := false
  /-- Write this entry under the call's key. -/
  index : Option DedupEntry := none
  /-- Append this record; the flag says whether it is fsynced. -/
  append : Option (PreparedRecord × Bool) := none

/-- `prepare_record` stamps the tenant, the topic and the key of the request on the record. -/
def stamp (tenantId : String) (idempotencyKey : Option String) (draft : PreparedRecord) :
    PreparedRecord where
  topic := draft.topic
  partition := draft.partition
  header := { draft.header with
    tenantId := tenantId
    topic := draft.topic
    idempotencyKey := idempotencyKey }
  payload := draft.payload
  fenceGeneration := draft.fenceGeneration

/-- The response `finalize_prepared_batch` gives for a record appended now. -/
def response (b : Broker) (record : PreparedRecord) : PublishResponse where
  messageId := record.header.id
  topic := record.topic
  partition := record.partition
  offset := (b.logs (b.shardKey record.topic record.partition)).records.length
  duplicate := false

/-- The response to a request for `topic` whose key the index has. -/
def existing (topic : String) (entry : DedupEntry) : PublishResponse :=
  ⟨entry.messageId, topic, entry.partition, entry.offset, true⟩

/-- What an action of the call `c` does. -/
def effect (b : Broker) (c : Call) (a : Action) : Option Effect :=
  match a, c.phase with
  | .waitPending, .waiting =>
    if c.key.any (· ∈ b.pending) then none else some { phase := .checked }
  | .getDedup ok, .checked =>
    if ok then
      match c.key.bind fun k => b.dedup k.dedupKey with
      | some entry => some { phase := c.respond (existing c.topic entry) }
      | none => some { phase := .missed }
    else some { phase := .failed none }
  | .insertPending, .missed =>
    if c.key.any (· ∈ b.pending) then some { phase := .waiting }
    else some { phase := .reserved, reserve := true }
  | .prepareRecord (some draft), .reserved =>
    some { phase := .prepared (stamp c.tenantId c.idempotencyKey draft) }
  | .prepareRecord none, .reserved => some { phase := .dropping none }
  | .appendBatch .ok, .prepared record =>
    some { phase := .appended (b.response record)
           append := some (record, decide (b.fsync = .always)) }
  | .appendBatch .error, .prepared _ => some { phase := .dropping none }
  | .appendBatch .errorStored, .prepared record =>
    some { phase := .dropping (some (b.response record).entry), append := some (record, false) }
  | .writeDedup ok, .appended r =>
    if c.caller.commitDedup then
      if ok then some { phase := .written r, index := some r.entry }
      else some { phase := .dropping (some r.entry) }
    else none
  | .release, .written r => some { phase := c.respond r, release := true }
  | .release, .appended r =>
    -- `finalize_prepared_batch` releases the token without an entry when dedup is deferred
    if c.caller.commitDedup then none else some { phase := c.respond r, release := true }
  | .replicate ok, .replicating r =>
    if ok then
      if r.duplicate ∨ c.key = none then some { phase := .returned r }
      else some { phase := .committing r }
    else some { phase := .failed (if r.duplicate then none else some r.entry) }
  | .commitDedup ok, .committing r =>
    if ok then some { phase := .releasing r, index := some r.entry }
    else some { phase := .failed (some r.entry) }
  | .releaseCommitted, .releasing r => some { phase := .returned r, release := true }
  | .dropToken, .dropping stored => some { phase := .failed stored, release := true }
  | _, _ => none

/-- The logs with more records in one of them. -/
def appendItems (b : Broker) (shard : ShardKey) (items : List Item) (synced : Bool) :
    ShardKey → DurableLog Item :=
  let log := (b.logs shard).append items
  Function.update b.logs shard (if synced then log.sync else log)

/-- The logs with one more record. -/
def appendTo (b : Broker) (record : PreparedRecord) (synced : Bool) : ShardKey → DurableLog Item :=
  b.appendItems (b.shardKey record.topic record.partition) [(record.header, record.payload)] synced

/-- The reservations after an action of a call with this key. -/
def Effect.onPending (e : Effect) (key : Option ReservationKey) (pending : Finset ReservationKey) :
    Finset ReservationKey :=
  match key with
  | some k =>
    if e.reserve then insert k pending else if e.release then pending.erase k else pending
  | none => pending

/-- The index after an action of a call with this key; a batch without keys writes nothing. -/
def Effect.onDedup (e : Effect) (key : Option ReservationKey)
    (dedup : String → Option DedupEntry) : String → Option DedupEntry :=
  match key, e.index with
  | some k, some entry => Function.update dedup k.dedupKey (some entry)
  | _, _ => dedup

/-- Apply the effect of an action of call `i`. -/
def apply (b : Broker) (i : Nat) (c : Call) (e : Effect) : Broker where
  physical := b.physical
  fsync := b.fsync
  pending := e.onPending c.key b.pending
  dedup := e.onDedup c.key b.dedup
  logs :=
    match e.append with
    | some (record, synced) => b.appendTo record synced
    | none => b.logs
  calls := b.calls.set i { c with phase := e.phase }

/-! ## The machine -/

inductive Event where
  /-- A new call; a request without a key needs no reservation. -/
  | start (caller : Caller) (tenantId topic : String) (idempotencyKey : Option String)
  | act (i : Nat) (action : Action)
  /-- A flush or a segment roll of one shard; without effect in `Os` mode. -/
  | flush (shard : ShardKey)
  /-- The process dies: calls and reservations go, the index stays, each log keeps its synced
  records and as many of the others as `keep` says. -/
  | crash (keep : ShardKey → Nat)

def step (b : Broker) : Event → Option Broker
  | .start caller tenantId topic key =>
    let phase := if key = none then .reserved else .waiting
    some { b with calls := b.calls ++ [⟨caller, tenantId, topic, key, phase⟩] }
  | .act i action =>
    (b.calls[i]?).bind fun c => (b.effect c action).map fun e => b.apply i c e
  | .flush shard =>
    if b.fsync = .os then some b
    else some { b with logs := Function.update b.logs shard (b.logs shard).sync }
  | .crash keep => some { b with
      pending := ∅
      logs := fun shard => (b.logs shard).crash (keep shard)
      calls := [] }

end Broker

end BetterMQ
