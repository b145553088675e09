import BetterMQ.Partition.Route
import BetterMQ.Partition.ShardView

/-!
# Tenants on one broker

The message operations of a broker that several tenants call: publish, read, list and purge. An
operation finds the log of its shard through the cache of open handles (`shard_handle`). The key of
the cache is the storage namespace and the partition: the topic in the per-topic layout,
`__physical` in the shared one. The tenant is in neither; it is only in the path of a per-topic log
that is opened for the first time. The shared log is read by topic.

The operations here are those of the source, one after another. `Op.exec` runs one under a tenant.
-/

namespace BetterMQ

namespace Tenants

/-! ## The state -/

/-- Where a log lies. -/
inductive LogDir where
  | topic (tenant topic : String) (partition : UInt32)
  | physical (partition : UInt32)
  deriving DecidableEq

structure Config where
  /-- `ShardLayout::is_physical`. -/
  physical : Bool
  shardCount : UInt32
  /-- `BrokerConfig::partitions`. -/
  partitions : Nat

structure State where
  /-- `shards`: the open handles. -/
  shards : ShardKey → Option LogDir
  disk : LogDir → ShardLog
  /-- The dedup rows of the metadata store. -/
  dedup : String → Option DedupEntry

/-- A broker nobody has published to. -/
def State.fresh : State where
  shards _ := none
  disk _ := ⟨[], [], 0⟩
  dedup _ := none

/-- A restart closes the handles. -/
def State.restart (s : State) : State := { s with shards := fun _ => none }

def State.setLog (s : State) (dir : LogDir) (log : ShardLog) : State :=
  { s with disk := Function.update s.disk dir log }

def State.putDedup (s : State) (row : String) (entry : DedupEntry) : State :=
  { s with dedup := Function.update s.dedup row (some entry) }

inductive Error where
  | unknownShard (partition : UInt32)
  | invalidName
  | offsetNotFound
  deriving DecidableEq

/-! ## Handles -/

def isControl (c : Char) : Bool := c.val < 0x20 || (0x7F ≤ c.val && c.val ≤ 0x9F)

def sanitizePathSegment (segment : String) : Option String :=
  let t := trim segment
  if t = "" ∨ t = "." ∨ t = ".." then none
  else if t.toList.any fun c => ['\x00', '/', '\\', ':'].contains c || isControl c then none
  else some t

namespace Config

def storageNamespace (cfg : Config) (topic : String) : String :=
  if cfg.physical then "__physical" else topic

theorem storageNamespace_topic {cfg : Config} (h : cfg.physical = false) (topic : String) :
    cfg.storageNamespace topic = topic := if_neg (h ▸ Bool.false_ne_true)

section

variable (cfg : Config) (tenant topic : String) (partition : UInt32)

/-- The directory of a log: `physical_shard_dir`, or `partition_dir` of the caller's tenant. -/
def dirFor : Option LogDir :=
  if cfg.physical then some (.physical partition)
  else
    match sanitizePathSegment tenant, sanitizePathSegment topic with
    | some tenant, some topic => some (.topic tenant topic partition)
    | _, _ => none

def shardHandle :
    Prog State Error LogDir := fun s =>
  if cfg.shardCount ≤ partition then (.error (.unknownShard partition), s)
  else
    let key : ShardKey := ⟨cfg.storageNamespace topic, partition⟩
    match s.shards key with
    | some dir => (.ok dir, s)
    | none =>
      match cfg.dirFor tenant topic partition with
      | none => (.error .invalidName, s)
      | some dir => (.ok dir, { s with shards := Function.update s.shards key (some dir) })

end

/-- The handle that is open, else that of the directory, is open afterwards. -/
theorem shardHandle_eq (cfg : Config) (tenant topic : String) (partition : UInt32) (s : State) :
    cfg.shardHandle tenant topic partition s =
      if cfg.shardCount ≤ partition then (.error (.unknownShard partition), s)
      else match (s.shards ⟨cfg.storageNamespace topic, partition⟩).or
          (cfg.dirFor tenant topic partition) with
        | none => (.error .invalidName, s)
        | some dir => (.ok dir, { s with
            shards := Function.update s.shards ⟨cfg.storageNamespace topic, partition⟩
              (some dir) }) := by
  unfold shardHandle
  split
  · rfl
  · dsimp only
    cases hopen : s.shards ⟨cfg.storageNamespace topic, partition⟩ with
    | none => simp only [Option.none_or]
    | some dir =>
      have hsame := Function.update_eq_self ⟨cfg.storageNamespace topic, partition⟩ s.shards
      rw [hopen] at hsame
      simp only [Option.some_or, hsame]

end Config

/-! ## Operations -/

inductive Op where
  | publish (topic : String) (partition : UInt32) (key : Option String) (item : Item)
  | readMessage (topic : String) (partition : UInt32) (offset : Nat)
  | listFrom (topic : String) (partition : UInt32) (start limit : Nat)
  | listTopic (topic : String) (limit : Nat)
  | purgeMessage (topic : String) (partition : UInt32) (offset : Nat)
  | purgeDlqMessage (topic : String) (partition : UInt32) (offset : Nat)
  | purgeDlqTopic (topic : String) (olderThanMs : Option Int64)

inductive Result where
  | published (partition : UInt32) (offset : Nat) (duplicate : Bool)
  | message (message : StoredMessage)
  | messages (messages : List StoredMessage)
  | purged (removed : Bool)
  | deleted (count : Nat)
  deriving DecidableEq

def message (partition : UInt32) (x : Nat × Item) : StoredMessage :=
  storedMessage x.2.1 x.2.2 partition x.1

/-- The dedup row of a request. -/
def dedupRow (tenant key : String) : String := ReservationKey.dedupKey ⟨tenant, key⟩

/-- The record as `prepare_record` stamps it. -/
def stamped (tenant topic : String) (key : Option String) (item : Item) : Item :=
  ({ item.1 with tenantId := tenant, topic := topic, idempotencyKey := key }, item.2)

namespace Config

/-- The append of a new record, and its row in the index. -/
def appendRecord (cfg : Config) (tenant topic : String) (partition : UInt32) (key : Option String)
    (item : Item) : Prog State Error Result := do
  let dir ← cfg.shardHandle tenant topic partition
  let s ← Prog.get
  let offset := (s.disk dir).records.length
  let record := stamped tenant topic key item
  Prog.modify fun s => s.setLog dir (s.disk dir |>.append record)
  match key with
  | none => return Result.published partition offset false
  | some key => do
    Prog.modify fun s => s.putDedup (dedupRow tenant key) ⟨record.1.id, offset, partition⟩
    return Result.published partition offset false

/-- A publish: the index first, then the append. -/
def publish (cfg : Config) (tenant topic : String) (partition : UInt32) (key : Option String)
    (item : Item) : Prog State Error Result := fun s =>
  match key.bind fun key => s.dedup (dedupRow tenant key) with
  | some entry => (.ok (.published entry.partition entry.offset true), s)
  | none => cfg.appendRecord tenant topic partition key item s

def readMessage (cfg : Config) (tenant topic : String) (partition : UInt32) (offset : Nat) :
    Prog State Error Result := do
  let dir ← cfg.shardHandle tenant topic partition
  let s ← Prog.get
  match (s.disk dir).readMessage topic offset with
  | some x => return .message (message partition x)
  | none => Prog.fail .offsetNotFound

def listTopicMessagesFrom (cfg : Config) (tenant topic : String) (partition : UInt32)
    (start limit : Nat) : Prog State Error (List StoredMessage) :=
  if limit = 0 then return []
  else do
    let dir ← cfg.shardHandle tenant topic partition
    let s ← Prog.get
    return ((s.disk dir).listTopicMessagesFrom topic start limit).map (message partition)

/-- The loop of `list_topic_messages`. -/
def listPartitions (cfg : Config) (tenant topic : String) (limit : Nat) :
    List Nat → List StoredMessage → Prog State Error (List StoredMessage)
  | [], messages => return messages
  | partition :: partitions, messages =>
    let remaining := limit - messages.length
    if remaining = 0 then return messages
    else do
      let more ← cfg.listTopicMessagesFrom tenant topic (UInt32.ofNat partition) 0 remaining
      listPartitions cfg tenant topic limit partitions (messages ++ more)

/-- The order of `sort_by_key(|m| (m.partition, m.offset))`. -/
def byPlace (x y : StoredMessage) : Bool :=
  x.partition < y.partition || (x.partition == y.partition && x.offset ≤ y.offset)

section

variable (cfg : Config) (tenant topic : String)

def listTopicMessages (limit : Nat) : Prog State Error (List StoredMessage) := do
  let messages ← cfg.listPartitions tenant topic limit (List.range cfg.partitions) []
  return (messages.mergeSort byPlace).take limit

/-- `purge_offset` through the handle. -/
def purgeOffset (partition : UInt32) (offset : Nat) : Prog State Error Bool := do
  let dir ← cfg.shardHandle tenant topic partition
  let s ← Prog.get
  let (removed, log) := (s.disk dir).purge offset
  Prog.modify fun s => s.setLog dir log
  return removed

def purgeMessage (partition : UInt32) (offset : Nat) : Prog State Error Bool :=
  if isDlqTopic topic then return false else cfg.purgeOffset tenant topic partition offset

def purgeDlqMessage (partition : UInt32) (offset : Nat) : Prog State Error Bool :=
  if isDlqTopic topic then cfg.purgeOffset tenant topic partition offset else return false

end

/-- The messages that `purge_dlq_topic` deletes. -/
def eligible (olderThanMs : Option Int64) (item : Item) : Bool :=
  match olderThanMs with
  | none => true
  | some cutoff => 0 < item.1.publishedAtMs && item.1.publishedAtMs ≤ cutoff

/-- The loop of `purge_dlq_topic` over the partitions. Within a partition the handle is looked up
again for every page and message; it stays cached. -/
def purgePartitions (cfg : Config) (tenant topic : String) (olderThanMs : Option Int64) :
    List Nat → Nat → Prog State Error Nat
  | [], deleted => return deleted
  | partition :: partitions, deleted => do
    let dir ← cfg.shardHandle tenant topic (UInt32.ofNat partition)
    let s ← Prog.get
    let (n, log) := (s.disk dir).purgeTopic topic (eligible olderThanMs)
    Prog.modify fun s => s.setLog dir log
    purgePartitions cfg tenant topic olderThanMs partitions (deleted + n)

def purgeDlqTopic (cfg : Config) (tenant topic : String) (olderThanMs : Option Int64) :
    Prog State Error Nat :=
  if isDlqTopic topic then
    cfg.purgePartitions tenant topic olderThanMs (List.range cfg.partitions) 0
  else return 0

end Config

/-- One operation under a tenant. -/
def Op.exec (cfg : Config) (tenant : String) : Op → Prog State Error Result
  | .publish topic partition key item => cfg.publish tenant topic partition key item
  | .readMessage topic partition offset => cfg.readMessage tenant topic partition offset
  | .listFrom topic partition start limit =>
    .messages <$> cfg.listTopicMessagesFrom tenant topic partition start limit
  | .listTopic topic limit => .messages <$> cfg.listTopicMessages tenant topic limit
  | .purgeMessage topic partition offset =>
    .purged <$> cfg.purgeMessage tenant topic partition offset
  | .purgeDlqMessage topic partition offset =>
    .purged <$> cfg.purgeDlqMessage tenant topic partition offset
  | .purgeDlqTopic topic olderThanMs => .deleted <$> cfg.purgeDlqTopic tenant topic olderThanMs

def Op.topic : Op → String
  | .publish topic _ _ _ => topic
  | .readMessage topic _ _ => topic
  | .listFrom topic _ _ _ => topic
  | .listTopic topic _ => topic
  | .purgeMessage topic _ _ => topic
  | .purgeDlqMessage topic _ _ => topic
  | .purgeDlqTopic topic _ => topic

end Tenants

end BetterMQ
