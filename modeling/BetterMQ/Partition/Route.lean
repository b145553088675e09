import BetterMQ.Partition.Publish
import BetterMQ.Proto.StableHash

/-!
# Routing

The cluster layer picks the leader of a publish from the request (`shard_for_request`,
`submit_batch`, the two gateways); the leader places the record when it prepares it
(`prepare_record`). Each derives tenant, topic and routing key on its own.

* **`stored_where_routed_iff`** — they agree under every hash and for every message id exactly if
  the configurations agree, the routing key is not empty and not padded, and (layout V1) the
  request names the topic it is stored under;
* **`padded_key_is_stored_elsewhere`** — a blank before the key sends the request to the leader of
  another shard than the record is stored in.

A request that reaches the leader may have been completed by other nodes on its way
(`prepare_for_cluster_forward`), which changes neither topic nor routing key.
-/

namespace BetterMQ

/-! ## Texts -/

/-- The characters that `trim` removes: the Unicode property `White_Space`. -/
def isWhiteSpace (c : Char) : Bool :=
  (0x9 ≤ c.val && c.val ≤ 0xD) || c.val == 0x20 || c.val == 0x85 || c.val == 0xA0 ||
    c.val == 0x1680 || (0x2000 ≤ c.val && c.val ≤ 0x200A) || c.val == 0x2028 || c.val == 0x2029 ||
    c.val == 0x202F || c.val == 0x205F || c.val == 0x3000

def trim (text : String) : String :=
  String.ofList (((text.toList.dropWhile isWhiteSpace).reverse.dropWhile isWhiteSpace).reverse)

def hexDigit (n : Nat) : Char := "0123456789abcdef".toList.getD n '0'

/-- `Uuid::to_string`: 32 hex digits in five groups. -/
def uuidString (id : Uuid) : String :=
  let digits := (List.range 32).map fun i => hexDigit ((id >>> (4 * (31 - i))).toNat % 16)
  String.ofList (digits.take 8 ++ ['-'] ++ (digits.drop 8).take 4 ++ ['-'] ++
    (digits.drop 12).take 4 ++ ['-'] ++ (digits.drop 16).take 4 ++ ['-'] ++ digits.drop 20)

example : uuidString 0xf65058f724a36df6b8f372e54655c3ff
    = "f65058f7-24a3-6df6-b8f3-72e54655c3ff" := by decide +kernel

def directTopic : String := "__direct"

def isDlqTopic (topic : String) : Bool := ".__dlq".toList.isSuffixOf topic.toList

/-- What the request path takes from the standard library and `serde_json`. -/
structure TextLib where
  toUppercase : String → String
  headersJson : List (String × String) → Option String

/-! ## Requests and catalogs -/

structure FlowSpec where
  key : Option String
  parallelism : Option UInt32
  rate : Option UInt32
  periodSecs : Option UInt64
  deriving DecidableEq

structure DestinationSnapshot where
  queueId : Option Uuid
  url : String
  secret : String
  deriving DecidableEq

structure HttpDeliveryInput where
  method : Option String
  headers : Option (List (String × String))
  sign : Option Bool
  deriving DecidableEq

/-- `PublishRequest`, with the fields that are read below. -/
structure PublishRequest where
  topic : String
  queueId : Option Uuid
  groupId : Option Uuid
  groupMemberId : Option Uuid
  routingKey : String
  idempotencyKey : Option String
  priority : Option UInt8
  flowId : Option Uuid
  url : Option String
  secret : Option String
  destination : Option DestinationSnapshot
  flow : Option FlowSpec
  maxRetries : Option UInt32
  retryBackoff : Option RetryBackoff
  http : HttpDeliveryInput
  /-- The nested `request` object. -/
  request : Option HttpDeliveryInput
  deriving DecidableEq

structure Subscription where
  id : Uuid
  tenantId : String
  topic : String
  url : String
  secret : String
  parallelism : Option UInt32
  defaultMaxRetries : Option UInt32
  retryBackoff : Option RetryBackoff
  deriving DecidableEq

structure FlowProfile where
  id : Uuid
  tenantId : String
  key : String
  parallelism : UInt32
  rate : UInt32
  periodSecs : UInt64
  deriving DecidableEq

def FlowProfile.toSpec (profile : FlowProfile) : FlowSpec :=
  ⟨some profile.key, some profile.parallelism, some profile.rate, some profile.periodSecs⟩

inductive BrokerError where
  | subscription
  | flowProfile
  | payload
  | queueNotFound (name : String)
  | flowProfileNotFound (id : Uuid)
  | notShardLeader (partition : UInt32)
  | invalidConfig (message : String)
  deriving DecidableEq

/-! ## Layouts -/

def layoutV2 : UInt32 := 2

structure ShardLayout where
  version : UInt32
  shardCount : UInt32
  deriving DecidableEq

def ShardLayout.isPhysical (layout : ShardLayout) : Bool := layoutV2 ≤ layout.version

/-- The topic as far as it takes part in the placement. -/
def ShardLayout.placementTopic (layout : ShardLayout) (topic : String) : String :=
  if layout.isPhysical then "" else topic

/-- `ShardLayout::assign`, and the same branch in `GatewayOnlyState::assign_shard`. -/
def ShardLayout.assign (layout : ShardLayout) (hash : List String → UInt64)
    (tenantId topic routingKey : String) : UInt32 :=
  if layout.isPhysical then stablePhysicalShard hash tenantId routingKey layout.shardCount
  else stablePartition hash tenantId topic routingKey layout.shardCount

theorem ShardLayout.assign_eq (layout : ShardLayout) (hash : List String → UInt64)
    (tenantId topic routingKey : String) :
    layout.assign hash tenantId topic routingKey
      = pick hash [tenantId, layout.placementTopic topic, routingKey] layout.shardCount := by
  unfold ShardLayout.assign ShardLayout.placementTopic
  split <;> rfl

/-! ## Delivery settings -/

def queueDeliveryFlow (routingKey : String) (queueParallelism : Option UInt32)
    (queueName : String) : Option FlowSpec :=
  let key := trim routingKey
  if key ≠ "" then some ⟨some key, some 1, none, none⟩
  else (queueParallelism.filter (0 < ·)).map fun n => ⟨some queueName, some n, none, none⟩

structure RetryDefaults where
  maxRetries : UInt32
  backoff : RetryBackoff

def resolveDeliveryRetry (req : PublishRequest) (queue : Option Subscription)
    (defaults : RetryDefaults) : UInt32 × RetryBackoff :=
  ((req.maxRetries.or (queue.bind (·.defaultMaxRetries))).getD defaults.maxRetries,
    (req.retryBackoff.or (queue.bind (·.retryBackoff))).getD defaults.backoff)

def normalizePriority (p : Option UInt8) : UInt8 := min (p.getD defaultPriority) 9

structure HttpDeliverySpec where
  method : String
  headers : List (String × String)
  sign : Bool
  deriving DecidableEq

namespace HttpDeliverySpec

def insertHeader (headers : List (String × String)) (header : String × String) :
    List (String × String) :=
  headers.filter (·.1 ≠ header.1) ++ [header]

def normalize (text : TextLib) (spec : HttpDeliverySpec) : HttpDeliverySpec :=
  let method := text.toUppercase (trim spec.method)
  { spec with method := if method = "" then "POST" else method }

def merge (text : TextLib) (input : HttpDeliveryInput) (nested : Option HttpDeliverySpec) :
    HttpDeliverySpec :=
  let spec := nested.getD ⟨"", [], false⟩
  normalize text
    { method := (input.method.filter fun m => trim m ≠ "").getD spec.method
      headers := (input.headers.getD []).foldl insertHeader spec.headers
      sign := input.sign.getD spec.sign }

def isAllowedHttpMethod (method : String) : Bool :=
  ["GET", "POST", "PUT", "PATCH", "DELETE", "HEAD"].contains method

def isValidHeaderName (name : String) : Bool :=
  name ≠ "" && name.toList.all fun c => c.isAlphanum || "!#$%&'*+-.^_`|~".toList.contains c

def isDeniedOutboundHeader (name : String) : Bool :=
  ["host", "content-length", "transfer-encoding", "connection", "keep-alive", "upgrade", "te",
    "trailer", "proxy-authorization", "authorization"].contains
      (String.ofList (name.toList.map Char.toLower))

def validateHeaders : List (String × String) → Except String Unit
  | [] => .ok ()
  | (name, _) :: rest =>
    if isValidHeaderName name = false then .error ("invalid header name: " ++ name)
    else if isDeniedOutboundHeader name then
      .error ("header " ++ name ++ " is not allowed on outbound webhook requests")
    else validateHeaders rest

def validate (spec : HttpDeliverySpec) : Except String Unit :=
  if isAllowedHttpMethod spec.method then validateHeaders spec.headers
  else .error ("unsupported HTTP method " ++ spec.method ++
    " (allowed: GET, POST, PUT, PATCH, DELETE, HEAD)")

def toHeadersJson (text : TextLib) (spec : HttpDeliverySpec) : Option String :=
  if spec.headers = [] then none else text.headersJson spec.headers

end HttpDeliverySpec

/-- The delivery of a request: its own settings over the nested ones. -/
def PublishRequest.delivery (text : TextLib) (req : PublishRequest) : HttpDeliverySpec :=
  HttpDeliverySpec.merge text req.http
    (req.request.map fun nested => HttpDeliverySpec.merge text nested none)

/-! ## Preparing a record -/

/-- What a broker knows when it prepares a record. -/
structure BrokerView where
  /-- `tenant()`. -/
  tenant : String
  layout : ShardLayout
  /-- `subscriptions.json`; `none` cannot be loaded. -/
  subscriptions : Option (List Subscription)
  /-- `flows.json`; `none` cannot be loaded. -/
  flows : Option (List FlowProfile)
  retryDefaults : RetryDefaults

/-- What comes from outside of the request and the catalogs. -/
structure PrepareEnv where
  hash : List String → UInt64
  /-- `Uuid::new_v4`. -/
  messageId : Uuid
  publishedAtMs : Int64
  /-- `prepare_for_log`: the payload for the log, or a reference to a blob. -/
  prepareForLog : String → Uuid → Bytes → Option (Bytes × Option String)
  /-- `shard_leader_check`, if it is installed. -/
  leaderCheck : Option (UInt32 → Option Nat)

/-- Where a record goes. -/
structure Target where
  topic : String
  queueId : Option Uuid
  url : Option String
  secret : Option String
  queue : Option Subscription
  deriving DecidableEq

namespace BrokerView

section

variable (b : BrokerView)

def getQueueById (id : Uuid) : Except BrokerError (Option Subscription) :=
  match b.subscriptions with
  | none => .error .subscription
  | some subscriptions => .ok (subscriptions.find? fun s => s.tenantId = b.tenant ∧ s.id = id)

def getByName (queue : String) : Except BrokerError (Option Subscription) :=
  match b.subscriptions with
  | none => .error .subscription
  | some subscriptions => .ok (subscriptions.find? fun s => s.tenantId = b.tenant ∧ s.topic = queue)

/-- The queue that a request without destination and url names. -/
def namedQueue (req : PublishRequest) : Except BrokerError Subscription :=
  match req.queueId with
  | some id => b.getQueueById id >>= fun queue =>
      queue.elim (.error (.queueNotFound (uuidString id))) .ok
  | none => b.getByName req.topic >>= fun queue =>
      queue.elim (.error (.queueNotFound req.topic)) .ok

/-- The topic of a destination. -/
def destinationTopic (dest : DestinationSnapshot) : String :=
  ((dest.queueId.bind fun id => (b.getQueueById id).toOption.join).map (·.topic)).getD directTopic

/-- The first part of `prepare_record`. -/
def target (req : PublishRequest) : Except BrokerError Target :=
  if isDlqTopic req.topic then .ok ⟨req.topic, none, none, none, none⟩
  else
    match req.destination with
    | some dest =>
      match dest.queueId with
      | some id => b.getQueueById id >>= fun queue =>
          .ok ⟨b.destinationTopic dest, dest.queueId, some dest.url, some dest.secret, queue⟩
      | none => .ok ⟨b.destinationTopic dest, none, some dest.url, some dest.secret, none⟩
    | none =>
      match req.url, req.secret with
      | some url, some secret => .ok ⟨directTopic, none, some url, some secret, none⟩
      | _, _ => b.namedQueue req >>= fun queue =>
          .ok ⟨queue.topic, some queue.id, some queue.url, some queue.secret, some queue⟩

def getFlowById (id : Uuid) : Except BrokerError (Option FlowProfile) :=
  match b.flows with
  | none => .error .flowProfile
  | some flows => .ok (flows.find? fun p => p.tenantId = b.tenant ∧ p.id = id)

/-- `resolve_flow_spec`. A profile always has a key, so the routing key never takes its place. -/
def resolveFlowSpec (req : PublishRequest) : Except BrokerError (Option FlowSpec) :=
  match req.flow, req.flowId with
  | some flow, _ => .ok (some flow)
  | none, some id => b.getFlowById id >>= fun profile =>
      profile.elim (.error (.flowProfileNotFound id)) fun profile => .ok (some profile.toSpec)
  | none, none => .ok none

/-- The limits frozen on the record; the flag says that it is a queue job. -/
def flowSpec (req : PublishRequest) (target : Target) :
    Except BrokerError (Bool × Option FlowSpec) :=
  match target.queue, req.groupMemberId with
  | some queue, none => .ok (true, queueDeliveryFlow req.routingKey queue.parallelism queue.topic)
  | _, _ => (b.resolveFlowSpec req).map fun spec => (false, spec)

end

def requireShardFence (env : PrepareEnv) (partition : UInt32) : Except BrokerError (Option Nat) :=
  match env.leaderCheck with
  | none => .ok none
  | some check =>
    (check partition).elim (.error (.notShardLeader partition)) fun gen => .ok (some gen)

/-- What is hashed for the place of a record: the trimmed routing key, or the new message id. -/
def partitionKey (req : PublishRequest) (messageId : Uuid) : String :=
  let key := trim req.routingKey
  if key ≠ "" then key else uuidString messageId

def prepareRecord (text : TextLib) (env : PrepareEnv) (b : BrokerView) (req : PublishRequest)
    (payload : Bytes) : Except BrokerError PreparedRecord := do
  let (logPayload, payloadRefJson) ←
    (env.prepareForLog b.tenant env.messageId payload).elim (.error .payload) .ok
  let target ← b.target req
  let (queueJob, flow) ← b.flowSpec req target
  let (maxRetries, retryBackoff) := resolveDeliveryRetry req target.queue b.retryDefaults
  let partition := b.layout.assign env.hash b.tenant target.topic (partitionKey req env.messageId)
  let fenceGeneration ← requireShardFence env partition
  let http := req.delivery text
  http.validate.mapError .invalidConfig
  return {
    topic := target.topic
    partition := partition
    header :=
      { id := env.messageId
        tenantId := b.tenant
        topic := target.topic
        routingKey := req.routingKey
        idempotencyKey := req.idempotencyKey
        publishedAtMs := env.publishedAtMs
        priority := normalizePriority req.priority
        flowParallelism := flow.bind (·.parallelism)
        flowKey := flow.bind (·.key)
        flowRate := flow.bind (·.rate)
        flowPeriodSecs := flow.bind (·.periodSecs)
        queueId := target.queueId
        groupId := req.groupId
        groupMemberId := req.groupMemberId
        flowProfileId := if queueJob then none else req.flowId
        destinationUrl := target.url
        destinationSecret := target.secret
        maxRetries := maxRetries
        retryBackoff := some retryBackoff
        httpMethod := some http.method
        httpHeadersJson := http.toHeadersJson text
        httpSign := some http.sign
        payloadRefJson := payloadRefJson }
    payload := logPayload
    fenceGeneration := fenceGeneration }

/-! ## The cluster layer -/

section

variable (b : BrokerView)

def assignShard (hash : List String → UInt64) (topic routingKey : String) : UInt32 :=
  b.layout.assign hash b.tenant topic routingKey

/-- `shard_for_request`; `submit_batch` and the gateway of a broker compute the same. -/
def shardForRequest (hash : List String → UInt64) (req : PublishRequest) : UInt32 :=
  b.assignShard hash req.topic req.routingKey

/-- The queue whose destination a forwarded request is given. -/
def forwardQueue (req : PublishRequest) : Except BrokerError (Option Subscription) :=
  match req.queueId with
  | some id => b.getQueueById id
  | none => if req.topic ≠ "" ∧ req.topic ≠ directTopic then b.getByName req.topic else .ok none

/-- The flow limits a forwarded request is given. -/
def forwardFlow (req : PublishRequest) : Except BrokerError (Option FlowSpec) :=
  match req.flow, req.flowId with
  | none, some id => (b.getFlowById id).map fun profile => profile.map (·.toSpec)
  | flow, _ => .ok flow

def prepareForClusterForward (req : PublishRequest) : Except BrokerError PublishRequest := do
  let flow ← b.forwardFlow req
  let req := { req with flow := flow }
  if req.destination = none ∧ req.url = none then
    let queue ← b.forwardQueue req
    match queue with
    | some q => return { req with destination := some ⟨some q.id, q.url, q.secret⟩ }
    | none => return req
  else return req

/-- The forwarding branch of `publish_with_cluster`. -/
def forward (req : PublishRequest) : Except BrokerError PublishRequest := do
  let req ← b.prepareForClusterForward req
  match req.flow, req.flowId with
  | none, some id => throw (.flowProfileNotFound id)
  | _, _ =>
    if req.destination = none ∧ req.url = none ∧
        (req.queueId.isSome ∨ (req.topic ≠ "" ∧ req.topic ≠ directTopic)) then
      throw (.queueNotFound ((req.queueId.map uuidString).getD req.topic))
    else return req

end

end BrokerView

/-- The request after the nodes that forwarded it. -/
def arrives (hops : List BrokerView) (req : PublishRequest) : Except BrokerError PublishRequest :=
  hops.foldlM (fun req node => node.forward req) req

/-- `GatewayOnlyState`: a gateway without a broker. -/
structure GatewayOnlyState where
  tenant : String
  layout : ShardLayout

/-- `assign_shard` of a gateway, for the tenant of the request or its own. -/
def GatewayOnlyState.assignShard (g : GatewayOnlyState) (hash : List String → UInt64)
    (auth : Option Uuid) (req : PublishRequest) : UInt32 :=
  g.layout.assign hash ((auth.map uuidString).getD g.tenant) req.topic req.routingKey

/-- `internal_gateway_ingest` refuses items of another shard. -/
def BrokerView.gatewayAccepts (b : BrokerView) (hash : List String → UInt64) (shard : UInt32)
    (req : PublishRequest) : Bool :=
  b.shardForRequest hash req = shard

/-! ## What is stored, and where -/

namespace BrokerView

variable {text : TextLib} {env : PrepareEnv} {b : BrokerView} {req req' : PublishRequest}
  {payload : Bytes}

/-- The request passes the checks of `prepare_record` that do not depend on the place. -/
def Accepts (text : TextLib) (b : BrokerView) (req : PublishRequest) : Prop :=
  ∃ target flow, b.target req = .ok target ∧ b.flowSpec req target = .ok flow ∧
    (req.delivery text).validate = .ok ()

/-- The topic of the queue a request names, by id or by name. -/
def queueTopic (b : BrokerView) (req : PublishRequest) : String :=
  match req.queueId with
  | some id => ((b.getQueueById id).toOption.join.map (·.topic)).getD ""
  | none => req.topic

/-- The topic a request is stored under, from its fields and the catalog. -/
def storedTopic (b : BrokerView) (req : PublishRequest) : String :=
  if isDlqTopic req.topic then req.topic
  else
    match req.destination with
    | some dest => b.destinationTopic dest
    | none =>
      match req.url, req.secret with
      | some _, some _ => directTopic
      | _, _ => b.queueTopic req

theorem namedQueue_topic {queue : Subscription} (h : b.namedQueue req = .ok queue) :
    queue.topic = b.queueTopic req := by
  unfold namedQueue at h
  unfold queueTopic
  split at h
  · obtain ⟨found, hfound, hqueue⟩ := exists_of_bind_eq_ok h
    cases found with
    | none => cases hqueue
    | some q =>
      cases hqueue
      rw [hfound]
      rfl
  · obtain ⟨found, hfound, hqueue⟩ := exists_of_bind_eq_ok h
    cases found with
    | none => cases hqueue
    | some q =>
      cases hqueue
      -- a queue found by name has that name
      unfold getByName at hfound
      split at hfound
      · cases hfound
      · next subscriptions hsubs =>
        have hsome := List.find?_some (Except.ok.inj hfound)
        exact (of_decide_eq_true hsome).2

theorem target_topic {target : Target} (h : b.target req = .ok target) :
    target.topic = b.storedTopic req := by
  unfold BrokerView.target at h
  unfold storedTopic
  split at h
  · next hdlq =>
    cases h
    rw [if_pos hdlq]
  · next hdlq =>
    rw [if_neg hdlq]
    split at h
    · split at h
      · obtain ⟨queue, -, hqueue⟩ := exists_of_bind_eq_ok h
        cases hqueue
        rfl
      · cases h
        rfl
    · split at h
      · cases h
        rfl
      · obtain ⟨queue, hqueue, htarget⟩ := exists_of_bind_eq_ok h
        cases htarget
        exact namedQueue_topic hqueue

/-- **Where a record is stored.** -/
theorem prepareRecord_ok {record : PreparedRecord}
    (h : b.prepareRecord text env req payload = .ok record) :
    b.Accepts text req ∧ record.topic = b.storedTopic req ∧
      record.partition = b.layout.assign env.hash b.tenant (b.storedTopic req)
        (partitionKey req env.messageId) ∧
      Broker.stamp b.tenant req.idempotencyKey record = record := by
  obtain ⟨⟨logPayload, payloadRefJson⟩, -, h⟩ := exists_of_bind_eq_ok h
  obtain ⟨target, htarget, h⟩ := exists_of_bind_eq_ok h
  obtain ⟨⟨queueJob, flow⟩, hflow, h⟩ := exists_of_bind_eq_ok h
  obtain ⟨fenceGeneration, -, h⟩ := exists_of_bind_eq_ok h
  obtain ⟨⟨⟩, hhttp, h⟩ := exists_of_bind_eq_ok h
  cases h
  have hvalid : (req.delivery text).validate = .ok () := by
    cases hcase : (req.delivery text).validate with
    | ok => rfl
    | error e =>
      rw [hcase] at hhttp
      cases hhttp
  have htopic := target_topic htarget
  refine ⟨⟨target, _, htarget, hflow, hvalid⟩, htopic, ?_, rfl⟩
  rw [← htopic]

/-- A request that is accepted is stored, if the payload store and the leader check let it. -/
theorem prepareRecord_of_accepts (h : b.Accepts text req) (hash : List String → UInt64)
    (messageId : Uuid) :
    ∃ env record, env.hash = hash ∧ env.messageId = messageId ∧
      b.prepareRecord text env req [] = .ok record := by
  obtain ⟨target, flow, htarget, hflow, hvalid⟩ := h
  let env : PrepareEnv := ⟨hash, messageId, 0, fun _ _ payload => some (payload, none), none⟩
  have hstored : ∃ record, b.prepareRecord text env req [] = .ok record := by
    unfold prepareRecord
    rw [htarget]
    show ∃ record, (b.flowSpec req target >>= _) = .ok record
    rw [hflow]
    show ∃ record, ((req.delivery text).validate.mapError _ >>= _) = .ok record
    rw [hvalid]
    exact ⟨_, rfl⟩
  obtain ⟨record, hrecord⟩ := hstored
  exact ⟨env, record, rfl, rfl, hrecord⟩

/-! ## Forwarding -/

theorem prepareForClusterForward_same (h : b.prepareForClusterForward req = .ok req') :
    req'.topic = req.topic ∧ req'.routingKey = req.routingKey := by
  obtain ⟨flow, -, h⟩ := exists_of_bind_eq_ok h
  dsimp only at h
  split at h
  · obtain ⟨queue, -, h⟩ := exists_of_bind_eq_ok h
    cases queue <;> cases h <;> exact ⟨rfl, rfl⟩
  · cases h
    exact ⟨rfl, rfl⟩

theorem forward_same (h : b.forward req = .ok req') :
    req'.topic = req.topic ∧ req'.routingKey = req.routingKey := by
  obtain ⟨prepared, hprepared, h⟩ := exists_of_bind_eq_ok h
  have hsame := prepareForClusterForward_same hprepared
  split at h
  · cases h
  · split at h
    · cases h
    · cases h
      exact hsame

end BrokerView

/-- **On its way to the leader a request keeps its topic and its routing key.** -/
theorem arrives_same {hops : List BrokerView} {req req' : PublishRequest}
    (h : arrives hops req = .ok req') :
    req'.topic = req.topic ∧ req'.routingKey = req.routingKey := by
  induction hops generalizing req with
  | nil =>
    cases h
    exact ⟨rfl, rfl⟩
  | cons node hops ih =>
    obtain ⟨next, hnext, hrest⟩ := exists_of_bind_eq_ok h
    obtain ⟨htopic, hkey⟩ := BrokerView.forward_same hnext
    obtain ⟨htopic', hkey'⟩ := ih hrest
    exact ⟨htopic'.trans htopic, hkey'.trans hkey⟩

/-! ## Agreement -/

/-- Who picks the leader: a node of the cluster for a publish or a batch, or a gateway, whose shard
the leader compares with its own. -/
inductive Entry where
  | node (view : BrokerView)
  | gateway

/-- The record of a request is stored in the shard its leader was picked for. -/
def StoredWhereRouted (text : TextLib) (leader : BrokerView) (req req' : PublishRequest) :
    Entry → Prop
  | .node view => ∀ env payload record, leader.prepareRecord text env req' payload = .ok record →
      record.partition = view.shardForRequest env.hash req
  | .gateway => ∀ (gateway : GatewayOnlyState) auth env payload record,
      leader.gatewayAccepts env.hash (gateway.assignShard env.hash auth req) req →
      leader.prepareRecord text env req' payload = .ok record →
      record.partition = gateway.assignShard env.hash auth req

/-- The broker whose tenant and layout the shard is computed with. -/
def Entry.chooser (leader : BrokerView) : Entry → BrokerView
  | .node view => view
  | .gateway => leader

/-- What the two places must have in common. -/
structure RoutedRight (chooser leader : BrokerView) (req req' : PublishRequest) : Prop where
  shardCount : chooser.layout.shardCount = leader.layout.shardCount
  tenant : chooser.tenant = leader.tenant
  topic : chooser.layout.placementTopic req.topic
    = leader.layout.placementTopic (leader.storedTopic req')
  /-- The routing key is neither empty nor padded. -/
  key : trim req.routingKey ≠ "" ∧ trim req.routingKey = req.routingKey

/-- A gateway's shard is the leader's own, for what the leader lets in. -/
theorem storedWhereRouted_iff_chooser (text : TextLib) (leader : BrokerView)
    (req req' : PublishRequest) (entry : Entry) :
    StoredWhereRouted text leader req req' entry ↔
      ∀ env payload record, leader.prepareRecord text env req' payload = .ok record →
        record.partition = (entry.chooser leader).shardForRequest env.hash req := by
  cases entry with
  | node view => exact Iff.rfl
  | gateway =>
    constructor
    · intro h env payload record hrecord
      exact h ⟨leader.tenant, leader.layout⟩ none env payload record (decide_eq_true rfl) hrecord
    · intro h gateway auth env payload record haccepts hrecord
      rw [h env payload record hrecord]
      exact of_decide_eq_true haccepts

/-- The key of the place is the routing key, whatever the message id, if it is neither empty nor
padded. -/
theorem partitionKey_eq_iff (req : PublishRequest) (key : String) (hkey : req.routingKey = key) :
    (∀ messageId, BrokerView.partitionKey req messageId = key) ↔
      trim key ≠ "" ∧ trim key = key := by
  subst hkey
  unfold BrokerView.partitionKey
  dsimp only
  split
  · next hne =>
    constructor
    · intro h
      exact ⟨hne, h 0⟩
    · intro h _
      exact h.2
  · next hempty =>
    constructor
    · -- two message ids differ
      intro h
      have heq : uuidString 0 = uuidString 1 := (h 0).trans (h 1).symm
      exact absurd heq (by decide +kernel)
    · intro h
      exact absurd h.1 hempty

/-- **The record is stored in the shard that was routed to** exactly if the chooser and the leader
have the same tenant, shard count and placement topic, and the routing key is neither empty nor
padded; or there is only one shard. -/
theorem stored_where_routed_iff {text : TextLib} {leader : BrokerView} {hops : List BrokerView}
    {req req' : PublishRequest} (harrives : arrives hops req = .ok req')
    (haccepts : leader.Accepts text req') (entry : Entry) :
    StoredWhereRouted text leader req req' entry ↔
      ((entry.chooser leader).layout.shardCount ≤ 1 ∧ leader.layout.shardCount ≤ 1) ∨
        RoutedRight (entry.chooser leader) leader req req' := by
  obtain ⟨-, hkey⟩ := arrives_same harrives
  set chooser := entry.chooser leader
  -- every hash and every message id occurs
  have hpick : StoredWhereRouted text leader req req' entry ↔ ∀ messageId,
      ∀ hash : List String → UInt64,
        pick hash [leader.tenant, leader.layout.placementTopic (leader.storedTopic req'),
          BrokerView.partitionKey req' messageId] leader.layout.shardCount
        = pick hash [chooser.tenant, chooser.layout.placementTopic req.topic, req.routingKey]
          chooser.layout.shardCount := by
    rw [storedWhereRouted_iff_chooser]
    constructor
    · intro h messageId hash
      obtain ⟨env, record, rfl, rfl, hrecord⟩ :=
        BrokerView.prepareRecord_of_accepts haccepts hash messageId
      obtain ⟨-, -, hpartition, -⟩ := BrokerView.prepareRecord_ok hrecord
      rw [← ShardLayout.assign_eq, ← hpartition, h env [] record hrecord]
      exact ShardLayout.assign_eq _ _ _ _ _
    · intro h env payload record hrecord
      obtain ⟨-, -, hpartition, -⟩ := BrokerView.prepareRecord_ok hrecord
      rw [hpartition, ShardLayout.assign_eq, h env.messageId env.hash]
      exact (ShardLayout.assign_eq _ _ _ _ _).symm
  rw [hpick]
  have hid := partitionKey_eq_iff req' req.routingKey hkey
  constructor
  · intro h
    have hagree := fun messageId => pick_agree_iff.mp (h messageId)
    by_cases hone : chooser.layout.shardCount ≤ 1 ∧ leader.layout.shardCount ≤ 1
    · exact .inl hone
    · have hsame := fun messageId => (hagree messageId).resolve_left fun h => hone h.symm
      obtain ⟨hcount, htexts⟩ := hsame 0
      have hlist := List.cons.inj htexts
      have htail := List.cons.inj hlist.2
      refine .inr ⟨hcount.symm, hlist.1.symm, htail.1.symm, hid.mp fun messageId => ?_⟩
      have htexts' := (hsame messageId).2
      exact (List.cons.inj (List.cons.inj (List.cons.inj htexts').2).2).1
  · rintro (⟨hchooser, hleader⟩ | hright) messageId
    · exact pick_agree_iff.mpr (.inl ⟨hleader, hchooser⟩)
    · refine pick_agree_iff.mpr (.inr ⟨hright.shardCount.symm, ?_⟩)
      rw [hright.tenant, hright.topic, hid.mpr hright.key messageId]

/-! ### A padded key -/

def asciiText : TextLib where
  toUppercase text := String.ofList (text.toList.map Char.toUpper)
  headersJson _ := none

def ordersQueue : Subscription :=
  ⟨7, "default", "orders", "https://example.com/hook", "s", none, none, none⟩

/-- A broker with one queue and the default number of physical shards. -/
def ordersBroker : BrokerView where
  tenant := "default"
  layout := ⟨2, 256⟩
  subscriptions := some [ordersQueue]
  flows := some []
  retryDefaults := ⟨3, ⟨.exponential, 1000, 60000, 0⟩⟩

def ordersRequest (routingKey : String) : PublishRequest where
  topic := "orders"
  queueId := none
  groupId := none
  groupMemberId := none
  routingKey := routingKey
  idempotencyKey := none
  priority := none
  flowId := none
  url := none
  secret := none
  destination := none
  flow := none
  maxRetries := none
  retryBackoff := none
  http := ⟨none, none, none⟩
  request := none

/-- A plain key that a node forwards, with the destination it was given, goes to the right place. -/
theorem plain_key_is_stored_where_routed :
    StoredWhereRouted asciiText ordersBroker (ordersRequest "rk")
      { ordersRequest "rk" with destination := some ⟨some 7, "https://example.com/hook", "s"⟩ }
      (.node ordersBroker) := by
  have harrives : arrives [ordersBroker] (ordersRequest "rk")
      = .ok { ordersRequest "rk" with
          destination := some ⟨some 7, "https://example.com/hook", "s"⟩ } := by
    decide +kernel
  have haccepts : ordersBroker.Accepts asciiText
      { ordersRequest "rk" with
        destination := some ⟨some 7, "https://example.com/hook", "s"⟩ } := by
    refine ⟨⟨"orders", some 7, some "https://example.com/hook", some "s", some ordersQueue⟩, _, ?_,
      rfl, ?_⟩
    · decide +kernel
    · decide +kernel
  refine (stored_where_routed_iff harrives haccepts (.node ordersBroker)).mpr ?_
  refine .inr ⟨rfl, rfl, rfl, ?_⟩
  decide +kernel

/-- What the environment gives in the example below: SipHash, message id 1, no leader check. -/
def sampleEnv : PrepareEnv := ⟨sipHash, 1, 0, fun _ _ payload => some (payload, none), none⟩

/-- **A blank before the routing key.** The leader is picked with it, the place without it. -/
theorem padded_key_is_stored_elsewhere :
    ∃ record, ordersBroker.prepareRecord asciiText sampleEnv (ordersRequest " rk") [] = .ok record ∧
      record.partition ≠ ordersBroker.shardForRequest sipHash (ordersRequest " rk") := by
  decide +kernel

end BetterMQ
