import BetterMQ.Partition.Route

/-!
# Delayed publishes

A request with a delay is kept as a `ScheduledPublishRequest` with its destination resolved
(`ingest_one_validated`), and published as a request without delay when it is due
(`fire_scheduled_publish`).

* **`delayed_record_eq_iff`** — the record is the one of the request without delay exactly if the
  request has an idempotency key, names no group, and does not name a queue besides a url;
* **`delayed_without_key_gets_one`** — a request without idempotency key is stored with one.
-/

namespace BetterMQ

open Option

/-- `ScheduledPublishRequest`, with the fields that are read below. -/
structure ScheduledPublishRequest where
  topic : String
  queueId : Option Uuid
  routingKey : String
  idempotencyKey : Option String
  priority : Option UInt8
  flowId : Option Uuid
  destination : Option DestinationSnapshot
  flow : Option FlowSpec
  maxRetries : Option UInt32
  retryBackoff : Option RetryBackoff
  http : HttpDeliveryInput
  request : Option HttpDeliveryInput
  deriving DecidableEq

namespace BrokerView

/-- `snapshot_destination`; the queue is looked up as `prepare_record` does. -/
def snapshotDestination (b : BrokerView) (req : PublishRequest) :
    Except BrokerError DestinationSnapshot :=
  match req.destination, req.url, req.secret with
  | some dest, _, _ => .ok dest
  | none, some url, some secret => .ok ⟨req.queueId, url, secret⟩
  | none, _, _ => (b.namedQueue req).map fun queue => ⟨some queue.id, queue.url, queue.secret⟩

/-- The branch of `ingest_one_validated` for a request with a delay; `newId` is the UUID of a new
idempotency key. -/
def delay (b : BrokerView) (newId : Uuid) (req : PublishRequest) :
    Except BrokerError ScheduledPublishRequest :=
  (b.snapshotDestination req).map fun dest =>
    { topic := req.topic
      queueId := req.queueId
      routingKey := req.routingKey
      idempotencyKey := req.idempotencyKey.or (some ("delay:" ++ uuidString newId))
      priority := req.priority
      flowId := req.flowId
      destination := some dest
      flow := req.flow
      maxRetries := req.maxRetries
      retryBackoff := req.retryBackoff
      http := req.http
      request := req.request }

end BrokerView

/-- The request that `fire_scheduled_publish` publishes. -/
def ScheduledPublishRequest.fire (pending : ScheduledPublishRequest) : PublishRequest where
  topic := pending.topic
  queueId := pending.queueId
  groupId := none
  groupMemberId := none
  routingKey := pending.routingKey
  idempotencyKey := pending.idempotencyKey
  priority := pending.priority
  flowId := pending.flowId
  url := none
  secret := none
  destination := pending.destination
  flow := pending.flow
  maxRetries := pending.maxRetries
  retryBackoff := pending.retryBackoff
  http := pending.http
  request := pending.request

/-- The requests that a delay does not change. -/
structure PublishRequest.KeepsWhenDelayed (req : PublishRequest) : Prop where
  key : req.idempotencyKey.isSome
  group : req.groupId = none
  member : req.groupMemberId = none
  /-- A queue next to a url becomes the queue of the destination. -/
  queue : req.queueId = none ∨ isDlqTopic req.topic ∨ req.destination.isSome ∨
    req.url = none ∨ req.secret = none

namespace BrokerView

variable {b : BrokerView} {req : PublishRequest} {queue : Subscription}

theorem mem_of_getQueueById {id : Uuid} (h : b.getQueueById id = .ok (some queue)) :
    ∃ subs, b.subscriptions = some subs ∧ queue ∈ subs ∧ queue.tenantId = b.tenant := by
  grind [getQueueById]

theorem mem_of_getByName {name : String} (h : b.getByName name = .ok (some queue)) :
    ∃ subs, b.subscriptions = some subs ∧ queue ∈ subs ∧ queue.tenantId = b.tenant := by
  grind [getByName]

theorem mem_of_namedQueue (h : b.namedQueue req = .ok queue) :
    ∃ subs, b.subscriptions = some subs ∧ queue ∈ subs ∧ queue.tenantId = b.tenant := by
  unfold namedQueue at h
  split at h
  · obtain ⟨_ | found, hfound, hqueue⟩ := exists_of_bind_eq_ok h <;> cases hqueue
    exact mem_of_getQueueById hfound
  · obtain ⟨_ | found, hfound, hqueue⟩ := exists_of_bind_eq_ok h <;> cases hqueue
    exact mem_of_getByName hfound

section

variable (hids : ∀ subs, b.subscriptions = some subs → (subs.map Subscription.id).Nodup)

include hids

/-- A queue that a request names is found by its id. -/
theorem getQueueById_of_namedQueue
    (h : b.namedQueue req = .ok queue) : b.getQueueById queue.id = .ok (some queue) := by
  obtain ⟨subs, hsubs, hmem, htenant⟩ := mem_of_namedQueue h
  have hone : ∀ q ∈ subs, q.id = queue.id → q = queue := fun q hq hid =>
    List.inj_on_of_nodup_map (hids subs hsubs) hq hmem hid
  rw [getQueueById]
  cases hfind : subs.find? fun s => s.tenantId = b.tenant ∧ s.id = queue.id <;> grind

/-- The destination of a delayed request leads where the request leads. -/
theorem target_destination {dest : DestinationSnapshot} {target : Target}
    (hdest : b.snapshotDestination req = .ok dest) (htarget : b.target req = .ok target)
    (hqueue : req.queueId = none ∨ isDlqTopic req.topic ∨ req.destination.isSome ∨
      req.url = none ∨ req.secret = none) {req' : PublishRequest} (htopic : req'.topic = req.topic)
    (hdest' : req'.destination = some dest) : b.target req' = .ok target := by
  rw [BrokerView.target, htopic, hdest']
  rw [BrokerView.target] at htarget
  rw [snapshotDestination] at hdest
  split
  · grind
  · split at htarget
    · contradiction
    · split at htarget
      · grind
      · split at htarget
        · grind [destinationTopic]
        · obtain ⟨queue, hnamed, hsome⟩ := exists_of_bind_eq_ok htarget
          cases hsome
          have hfound := getQueueById_of_namedQueue hids hnamed
          obtain rfl : dest = ⟨some queue.id, queue.url, queue.secret⟩ := by grind [Except.map]
          simp only [destinationTopic, bind_some, hfound]
          rfl

end

theorem header_of_prepareRecord {text : TextLib} {env : PrepareEnv} {payload : Bytes}
    {record : PreparedRecord} (h : b.prepareRecord text env req payload = .ok record) :
    ∃ target, b.target req = .ok target ∧ record.header.queueId = target.queueId ∧
      record.header.idempotencyKey = req.idempotencyKey ∧
      record.header.groupId = req.groupId ∧ record.header.groupMemberId = req.groupMemberId := by
  obtain ⟨_, -, h⟩ := exists_of_bind_eq_ok h
  obtain ⟨target, htarget, h⟩ := exists_of_bind_eq_ok h
  obtain ⟨_, -, h⟩ := exists_of_bind_eq_ok h
  obtain ⟨_, -, h⟩ := exists_of_bind_eq_ok h
  obtain ⟨_, -, h⟩ := exists_of_bind_eq_ok h
  cases h
  exact ⟨target, htarget, rfl, rfl, rfl, rfl⟩

/-- **Exactly which requests a delay does not change.** For every request that is accepted with and
without delay, under an unchanged catalog whose queue ids are distinct, and up to message id and
time. -/
theorem delayed_record_eq_iff {text : TextLib} {env : PrepareEnv} {payload : Bytes} {newId : Uuid}
    {pending : ScheduledPublishRequest} {record : PreparedRecord}
    (hids : ∀ subs, b.subscriptions = some subs → (subs.map Subscription.id).Nodup)
    (hdelay : b.delay newId req = .ok pending)
    (hdirect : b.prepareRecord text env req payload = .ok record) :
    b.prepareRecord text env pending.fire payload = .ok record ↔ req.KeepsWhenDelayed := by
  obtain ⟨target, htarget, hqueueId, hkey, hgroup, hmember⟩ := header_of_prepareRecord hdirect
  obtain ⟨dest, hdest, rfl⟩ : ∃ dest, b.snapshotDestination req = .ok dest ∧ _ = pending := by
    rw [delay] at hdelay
    cases hdest : b.snapshotDestination req with
    | error e => rw [hdest] at hdelay; cases hdelay
    | ok dest => rw [hdest] at hdelay; exact ⟨dest, rfl, Except.ok.inj hdelay⟩
  constructor
  · intro hfire
    obtain ⟨target', htarget', hqueueId', hkey', hgroup', hmember'⟩ := header_of_prepareRecord hfire
    refine ⟨?_, hgroup.symm.trans hgroup', hmember.symm.trans hmember', ?_⟩
    · rw [← hkey, hkey']
      cases req.idempotencyKey <;> rfl
    · -- otherwise only the delayed record names a queue
      by_contra hqueue
      obtain ⟨hid, hdlq, hnone, hurl, hsecret⟩ := by simpa only [not_or] using hqueue
      obtain ⟨id, hid⟩ := ne_none_iff_exists'.mp hid
      obtain ⟨url, hurl⟩ := ne_none_iff_exists'.mp hurl
      obtain ⟨secret, hsecret⟩ := ne_none_iff_exists'.mp hsecret
      rw [isSome_iff_ne_none, not_not] at hnone
      have hdirectly : target.queueId = none := by
        rw [BrokerView.target, if_neg hdlq, hnone, hurl, hsecret] at htarget
        cases htarget
        rfl
      have hdelayed : target'.queueId = some id := by
        rw [snapshotDestination, hnone, hurl, hsecret, hid] at hdest
        cases hdest
        obtain ⟨queue, -, hqueue⟩ := exists_of_bind_eq_ok ((if_neg hdlq).symm.trans htarget')
        cases hqueue
        rfl
      rw [hqueueId, hdirectly, hdelayed] at hqueueId'
      cases hqueueId'
  · intro hkeep
    have htarget' : b.target { req with destination := some dest, url := none, secret := none } =
        .ok target :=
      target_destination hids hdest htarget hkeep.queue rfl rfl
    have hsame : b.prepareRecord text env
        { req with destination := some dest, url := none, secret := none } payload =
          b.prepareRecord text env req payload := by
      unfold prepareRecord
      rw [htarget', htarget]
      rfl
    rw [← hdirect, ← hsame]
    obtain ⟨key, hkey⟩ := isSome_iff_exists.mp hkeep.key
    cases req
    cases hkeep.group
    cases hkeep.member
    cases hkey
    rfl

end BrokerView

/-- A request with an idempotency key, for a queue by name. -/
def keyedRequest : PublishRequest := { ordersRequest "rk" with idempotencyKey := some "k" }

theorem keyed_request_keeps : ∃ pending record,
    ordersBroker.delay 9#128 keyedRequest = .ok pending ∧
      ordersBroker.prepareRecord asciiText sampleEnv keyedRequest [] = .ok record ∧
      ordersBroker.prepareRecord asciiText sampleEnv pending.fire [] = .ok record := by
  refine exists₂_and₂_of (by decide +kernel) fun pending record hdelay hrecord =>
    (BrokerView.delayed_record_eq_iff (fun subs hsubs => ?_) hdelay hrecord).mpr ?_
  · cases hsubs
    decide
  · exact ⟨rfl, rfl, rfl, .inl rfl⟩

/-- Without idempotency key the delayed request is given a new one, which its record carries. -/
theorem delayed_without_key_gets_one : ∃ pending record record',
    ordersBroker.delay 9#128 (ordersRequest "rk") = .ok pending ∧
      ordersBroker.prepareRecord asciiText sampleEnv (ordersRequest "rk") [] = .ok record ∧
      ordersBroker.prepareRecord asciiText sampleEnv pending.fire [] = .ok record' ∧
      record.header.idempotencyKey = none ∧
      record'.header.idempotencyKey = some "delay:00000000-0000-0000-0000-000000000009" := by
  decide +kernel

end BetterMQ
