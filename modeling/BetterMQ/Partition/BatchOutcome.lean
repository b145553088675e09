import BetterMQ.Partition.Submit

/-!
# What a batch reports

* **`outcomes_truthful_iff`** — the outcomes of a batch are truthful exactly when all of its shard
  groups succeed, or all fail and none of those that reached a log holds a keyed record;
* **`Run.consistent`** — batches that meet this condition keep the index and the logs consistent.
-/

namespace BetterMQ

open List Option

namespace Broker

variable {b b' : Broker} {tenantId : String} {env : BatchEnv} {p : PreparedBatch}
  {requests : Requests} {g : ShardBatch} {record : PreparedRecord}
  {responses : List PublishResponse} {qs : List (PreparedRecord × StoredMessage)}
  {stored : List PreparedRecord}

/-! ## The property and the condition -/

/-- The requests that were reported as failed. -/
def failedRequests (requests : Requests) (outcomes : List Outcome) :
    List Request :=
  (requests.zipIdx.filter fun r =>
    outcomes.any fun o => o.index == r.2 && !o.result.isOk).map fun r => r.1.1

/-- The log of its own topic holds the record that an entry names. -/
def Filed (b : Broker) (entry : DedupEntry) : Prop :=
  ∃ item : Item, (b.logs (b.shardKey item.1.topic entry.partition)).records[entry.offset]?
    = some item ∧ item.1.id = entry.messageId

/-- The outcomes of a batch are truthful. -/
structure OutcomesTruthful (b : Broker) (tenantId : String) (env : BatchEnv)
    (requests : Requests) : Prop where
  /-- A record whose own group succeeds is accepted under its stored id, partition and offset. -/
  accepted : ∀ p, b.preparedOf tenantId requests = some p → ∀ g ∈ p.batches,
    (env.fate g.key).append = .ok → (env.fate g.key).commit = true → ∀ record ∈ g.records,
    ∀ (j index : Nat) (request : Request) (fate : RequestFate) (dup : Bool) (top : Option String),
      (admitted requests)[j]? = some (index, request, fate) →
      p.slots[j]? = some (.awaiting record.header.id dup top) →
      ∃ o ∈ (b.submitBatch tenantId env requests).2, o.index = index ∧
        ∃ r, o.result = .ok r ∧ r.messageId = record.header.id ∧
          r.partition = record.partition ∧
          ((b.submitBatch tenantId env requests).1.logs g.shard).records[r.offset]?
            = some record.item
  /-- What is reported as accepted is stored. -/
  stored : ∀ o ∈ (b.submitBatch tenantId env requests).2, ∀ r, o.result = .ok r →
    (b.submitBatch tenantId env requests).1.Filed r.entry
  /-- Submitting the failed requests once more, however that goes, stores no second record. -/
  retried : ∀ env' retry,
    retry.map Prod.fst = failedRequests requests (b.submitBatch tenantId env requests).2 →
    ∀ r ∈ retry, ∀ key, r.1.idempotencyKey = some key →
      ((b.submitBatch tenantId env requests).1.submitBatch tenantId env' retry).1.OneRecord
        ⟨tenantId, key⟩

/-- Every record of the batch is appended, committed and, if keyed, indexed; or every record's
group fails, and none of a group that reached its log is keyed. -/
def BatchOk (b : Broker) (tenantId : String) (env : BatchEnv) (requests : Requests) : Prop :=
  (∀ record ∈ b.batchRecords tenantId requests, b.RecordOk env record) ∨
  ∀ record ∈ b.batchRecords tenantId requests, ¬ b.Lands env record ∧
    ((env.fate (b.preparedKey record)).append ≠ .error → record.header.idempotencyKey = none)

/-- The index names every record stored under a key, and each of its entries names a stored
record. -/
structure Consistent (b : Broker) : Prop where
  indexed : ∀ k : ReservationKey, ':' ∉ k.tenantId.toList → b.Indexed k
  filed : ∀ name entry, b.dedup name = some entry → b.Filed entry

theorem fresh_consistent (physical : Bool) (fsync : FsyncMode) :
    (fresh physical fsync).Consistent where
  indexed := (fresh_idle physical fsync).2
  filed := nofun

theorem Filed.extends {entry : DedupEntry} (h : b.Filed entry) (hstores : b.Stores stored b') :
    b'.Filed entry := by
  obtain ⟨item, hitem, hid⟩ := h
  refine ⟨item, ?_, hid⟩
  rw [hstores.shardKey]
  exact getElem?_of_isPrefix (hstores.isPrefix _) hitem

section

variable (hp : b.preparedOf tenantId requests = some p)

include hp

theorem batchRecords_of_prepared : b.batchRecords tenantId requests = p.records := by
  unfold batchRecords
  rw [hp]

theorem submitBatch_published :
    b.Published tenantId env p (b.submitBatch tenantId env requests).1
      (b.publishPrepared tenantId env p).2 := by
  rw [submitBatch_fst, hp]
  exact (publishPrepared_published (preparePublishBatch_ready hp)).2

theorem published_of_ok (hgood : ∀ record ∈ p.records, b.RecordOk env record) :
    ∃ responses qs, (b.publishPrepared tenantId env p).2 = .ok responses ∧
      b.Accepted tenantId p (b.submitBatch tenantId env requests).1 responses qs := by
  have hpublished := @submitBatch_published _ _ env _ _ hp
  generalize (b.publishPrepared tenantId env p).2 = result at hpublished
  cases hpublished with
  | ok _ h => exact ⟨_, _, rfl, h⟩
  | error hbad _ =>
    obtain ⟨record, hrecord, hbad⟩ := hbad
    exact absurd (hgood record hrecord) hbad

theorem published_of_bad (hrecord : record ∈ p.records) (hbad : ¬ b.RecordOk env record) :
    ∃ error, (b.publishPrepared tenantId env p).2 = .error error ∧
      (¬ b.Lands env record → (b.submitBatch tenantId env requests).1.dedup = b.dedup) := by
  have hpublished := @submitBatch_published _ _ env _ _ hp
  generalize (b.publishPrepared tenantId env p).2 = result at hpublished
  cases hpublished with
  | ok hall _ => exact absurd (hall record hrecord) hbad
  | error _ hdedup =>
    exact ⟨_, rfl, fun hearly => hdedup.resolve_right fun hall => hearly (hall record hrecord)⟩

end

/-! ## Batches that keep the index consistent -/

theorem Accepted.exists_pair (h : b.Accepted tenantId p b' responses qs)
    (hrecord : record ∈ p.records) : ∃ q ∈ qs, q.1 = record :=
  mem_map.mp (h.records.mem_iff.mpr hrecord)

theorem Accepted.filed (h : b.Accepted tenantId p b' responses qs)
    (hp : b.preparedOf tenantId requests = some p) {q : PreparedRecord × StoredMessage}
    (hq : q ∈ qs) : b'.Filed ⟨q.2.id, q.2.offset, q.2.partition⟩ := by
  obtain ⟨hid, hpartition, hitem⟩ := h.stored q hq
  have htopic : q.1.item.1.topic = q.1.topic := ((preparePublishBatch_ready hp).stamped q.1
    (h.records.mem_iff.mp (mem_map_of_mem hq))).2
  exact ⟨q.1.item, by rw [htopic]; exact hpartition ▸ hitem, hid.symm⟩

section

variable (hb : b.Consistent)

include hb

/-- **A batch that succeeds** leaves a consistent broker consistent. -/
theorem Consistent.of_ok (htenant : ':' ∉ tenantId.toList)
    (hp : b.preparedOf tenantId requests = some p)
    (h : b.Accepted tenantId p (b.submitBatch tenantId env requests).1 responses qs) :
    (b.submitBatch tenantId env requests).1.Consistent := by
  have hstores := b.submitBatch_stores tenantId env requests
  have hone := fun k hk => submitBatch_oneRecord (hb.indexed k hk) tenantId env requests
  set b' := (b.submitBatch tenantId env requests).1
  constructor
  · intro k hk
    rcases h.index k.dedupKey with ⟨hnone, hsame⟩ | ⟨q, hq, key, hkey, hname, hentry⟩
    · -- the batch has no record of the key
      refine hstores.indexed_of_ne (hb.indexed k hk) hsame fun record hrecord hreserved => ?_
      have hmem := (mem_storedOf.mp hrecord).1
      obtain ⟨hkey, hrecordTenant⟩ := reservationKey_eq_some.mp hreserved
      rw [((b.batchRecords_ready tenantId requests).2 record hmem).1] at hrecordTenant
      obtain ⟨q, hq, rfl⟩ := h.exists_pair (batchRecords_of_prepared hp ▸ hmem)
      exact hnone q hq _ hkey (by rw [hrecordTenant])
    · -- the row of the key names the one record that is stored under it
      obtain rfl := dedupKey_injective htenant hk hname
      obtain ⟨hid, hpartition, hitem⟩ := h.stored q hq
      have hmem : q.1 ∈ b.batchRecords tenantId requests := by
        rw [batchRecords_of_prepared hp]
        exact h.records.mem_iff.mp (mem_map_of_mem hq)
      have hreserved : q.1.header.reservationKey = some ⟨tenantId, key⟩ :=
        reservationKey_eq_some.mpr ⟨hkey, ((b.batchRecords_ready tenantId requests).2 q.1 hmem).1⟩
      refine ⟨some (b'.recordShard q.1, _), hentry, fun shard o item hitem' hkey' => ?_⟩
      obtain ⟨rfl, rfl⟩ := hone _ hk _ _ _ _ _ _ hitem' hkey' hitem hreserved
      rw [hitem, some_inj] at hitem'
      rw [← hitem', hid, hpartition]
      rfl
  · intro name entry hentry
    rcases h.index name with ⟨-, hsame⟩ | ⟨q, hq, key, -, -, hrow⟩
    · exact (hb.filed name entry (hsame ▸ hentry)).extends hstores
    · rw [hrow, some_inj] at hentry
      exact hentry ▸ h.filed hp hq

/-- Without new entries, and without keyed records in the logs, a broker stays consistent. -/
theorem Consistent.of_unkeyed (hstores : b.Stores stored b') (hdedup : b'.dedup = b.dedup)
    (hunkeyed : ∀ record ∈ stored, record.header.idempotencyKey = none) : b'.Consistent where
  indexed k hk := by
    refine hstores.indexed_of_ne (hb.indexed k hk) (congrFun hdedup _) ?_
    intro record hrecord hkey
    rw [reservationKey_eq_some, hunkeyed record hrecord] at hkey
    cases hkey.1
  filed name entry hentry := (hb.filed name entry (hdedup ▸ hentry)).extends hstores

/-- **A batch that meets the condition** leaves a consistent broker consistent. -/
theorem Consistent.submitBatch (htenant : ':' ∉ tenantId.toList)
    (hok : b.BatchOk tenantId env requests) :
    (b.submitBatch tenantId env requests).1.Consistent := by
  cases hp : b.preparedOf tenantId requests with
  | none =>
    rw [submitBatch_fst, hp]
    exact hb
  | some p =>
    by_cases hgood : ∀ record ∈ p.records, b.RecordOk env record
    · obtain ⟨responses, qs, -, h⟩ := published_of_ok hp hgood
      exact hb.of_ok htenant hp h
    · obtain ⟨record, hrecord, hbad⟩ := not_forall₂.mp hgood
      obtain ⟨error, -, hdedup⟩ := published_of_bad hp hrecord hbad
      rw [← batchRecords_of_prepared hp] at hrecord
      have hfailed := hok.resolve_left fun h => hbad (h record hrecord)
      refine hb.of_unkeyed (b.submitBatch_stores tenantId env requests)
        (hdedup (hfailed record hrecord).1) fun r hr => ?_
      obtain ⟨hmem, happend⟩ := mem_storedOf.mp hr
      exact (hfailed r hmem).2 happend

/-- A batch, with what the environment makes of it. -/
structure Submission where
  tenantId : String
  env : BatchEnv
  requests : Requests

def submitStep (b : Broker) (s : Submission) : Option Broker :=
  some (b.submitBatch s.tenantId s.env s.requests).1

/-- The condition on one batch of a run. -/
def SubmissionOk (b : Broker) (s : Submission) : Prop :=
  ':' ∉ s.tenantId.toList ∧ b.BatchOk s.tenantId s.env s.requests

/-- **Every run of batches** that meet the condition keeps the index and the logs consistent. -/
theorem Run.consistent {submissions : List Submission}
    (h : Run submitStep SubmissionOk b submissions b') : b'.Consistent := by
  refine h.invariant Consistent (fun b s b' hb hok hstep => ?_) hb
  cases hstep
  exact hb.submitBatch hok.1 hok.2

end

/-! ## Outcomes -/

theorem admitted_map_snd (requests : Requests) :
    (admitted requests).map Prod.snd = requests.filter fun r => r.2.admitted := by
  have hswap : (requests.zipIdx.map Prod.swap).map Prod.snd = requests := by
    rw [List.map_map]
    exact zipIdx_map_fst 0 requests
  conv_rhs => rw [← hswap]
  rw [List.filter_map]
  rfl

variable {o : Outcome} {r : PublishResponse}

theorem mem_submitBatch_snd :
    o ∈ (b.submitBatch tenantId env requests).2 ↔
      o ∈ failedOutcomes ((requests.zipIdx.map Prod.swap).filter fun r => !r.2.2.admitted)
          .admission ∨
      o ∈ (b.submitAdmitted tenantId env (admitted requests)).2 := by
  unfold submitBatch
  split
  · next hnone => rw [hnone, submitAdmitted_nil, iff_self_or]; nofun
  · rw [mem_mergeSort, mem_append]

theorem failedOutcomes_error {records : List Submitted} {error : BatchError}
    (h : o ∈ failedOutcomes records error) : o.result = .error error := by
  obtain ⟨r, -, rfl⟩ := mem_map.mp h
  rfl

theorem submitAdmitted_snd (hp : b.preparedOf tenantId requests = some p) :
    (b.submitAdmitted tenantId env (admitted requests)).2
      = outcomesOf (admitted requests) (b.publishPrepared tenantId env p).2 := by
  unfold preparedOf at hp
  rw [submitAdmitted_eq, hp]

/-- **An accepted record** is one of a batch that succeeds, and its response one of the batch's. -/
theorem accepted_of_mem (ho : o ∈ (b.submitBatch tenantId env requests).2) (hr : o.result = .ok r) :
    ∃ p responses qs, b.preparedOf tenantId requests = some p ∧ r ∈ responses ∧
      b.Accepted tenantId p (b.submitBatch tenantId env requests).1 responses qs ∧
      ∀ record ∈ p.records, b.RecordOk env record := by
  rcases mem_submitBatch_snd.mp ho with hrejected | hadmitted
  · rw [failedOutcomes_error hrejected] at hr
    cases hr
  rw [submitAdmitted_eq] at hadmitted
  split at hadmitted
  · next p hp =>
    have hpublished := @submitBatch_published b tenantId env p requests hp
    cases hresult : (b.publishPrepared tenantId env p).2 with
    | ok responses =>
      rw [hresult] at hadmitted hpublished
      obtain ⟨hall, h⟩ := hpublished
      obtain ⟨q, hq, rfl⟩ := mem_map.mp hadmitted
      cases hr
      exact ⟨p, responses, _, hp, (of_mem_zip hq).2, h, hall⟩
    | error e =>
      rw [hresult] at hadmitted
      rw [failedOutcomes_error hadmitted] at hr
      cases hr
  · rw [failedOutcomes_error hadmitted] at hr
    cases hr

/-- **What is reported as accepted is stored**, whatever fails. -/
theorem Consistent.accepted_filed (hb : b.Consistent)
    (ho : o ∈ (b.submitBatch tenantId env requests).2) (hr : o.result = .ok r) :
    (b.submitBatch tenantId env requests).1.Filed r.entry := by
  obtain ⟨p, responses, qs, hp, hmem, h, -⟩ := accepted_of_mem ho hr
  obtain ⟨hlength, hanswers⟩ := forall₂_iff_get.mp h.answers
  obtain ⟨j, hj, rfl⟩ := mem_iff_getElem.mp hmem
  have hanswer := hanswers j (hlength ▸ hj) hj
  have hslot := getElem_mem (hlength ▸ hj : j < p.slots.length)
  rcases (preparePublishBatch_ready hp).slots _ hslot with ⟨r, name, heq, hname⟩ | ⟨_, _, _, _, heq⟩
  · rw [get_eq_getElem, heq] at hanswer
    rw [show responses[j] = r from hanswer]
    exact (hb.filed name _ hname).extends (b.submitBatch_stores tenantId env requests)
  · rw [get_eq_getElem, heq] at hanswer
    obtain ⟨q, hq, -, hresponse⟩ := hanswer
    have hfiled := h.filed hp hq
    rw [(h.stored q hq).2.1] at hfiled
    rw [show responses[j] = _ from hresponse]
    exact hfiled

variable {request : Request} {key : String} {failed : List Request}

/-- **A record of a batch that succeeds is accepted** under its stored id, partition and offset. -/
theorem accepted_of_ok (hids : (draftIds requests).Nodup)
    (hp : b.preparedOf tenantId requests = some p)
    (hgood : ∀ record ∈ p.records, b.RecordOk env record) (hg : g ∈ p.batches)
    (hrecord : record ∈ g.records) {j index : Nat} {fate : RequestFate} {dup : Bool}
    {top : Option String} (hadmitted : (admitted requests)[j]? = some (index, request, fate))
    (hslot : p.slots[j]? = some (.awaiting record.header.id dup top)) :
    ∃ o ∈ (b.submitBatch tenantId env requests).2, o.index = index ∧
      ∃ r, o.result = .ok r ∧ r.messageId = record.header.id ∧ r.partition = record.partition ∧
        ((b.submitBatch tenantId env requests).1.logs g.shard).records[r.offset]?
          = some record.item := by
  have hready := preparePublishBatch_ready hp
  have hstores := b.submitBatch_stores tenantId env requests
  have hmem := mem_groupRecords.mpr ⟨g, hg, hrecord⟩
  obtain ⟨responses, qs, hresult, h⟩ := published_of_ok hp hgood
  obtain ⟨hlength, hanswers⟩ := forall₂_iff_get.mp h.answers
  obtain ⟨hj, hslotEq⟩ := List.getElem?_eq_some_iff.mp hslot
  have hanswer := hanswers j hj (hlength ▸ hj)
  rw [get_eq_getElem, hslotEq] at hanswer
  -- the slot is filled from a record with the id it awaits, and ids are unique in the batch
  obtain ⟨q, hq, hid, hresponse⟩ := hanswer
  have hnodup : (p.records.map (·.header.id)).Nodup := by
    obtain ⟨ids, hperm, hsublist⟩ := hready.ids
    rw [admitted_map_snd] at hsublist
    exact hperm.nodup_iff.mp (hids.sublist (hsublist.trans (filter_sublist.filterMap _)))
  obtain rfl := inj_on_of_nodup_map hnodup (h.records.mem_iff.mp (mem_map_of_mem hq)) hmem hid
  obtain ⟨hstoredId, -, hitem⟩ := h.stored q hq
  refine ⟨⟨index, request.topic, .ok ⟨q.2.id, top.getD q.1.topic, q.1.partition, q.2.offset, dup⟩⟩,
    mem_submitBatch_snd.mpr (.inr ?_), rfl, _, rfl, hstoredId, rfl, ?_⟩
  · rw [submitAdmitted_snd hp, hresult]
    refine mem_map.mpr ⟨((index, request, fate), _), mem_of_getElem? (i := j) ?_, rfl⟩
    exact getElem?_zip_eq_some.mpr
      ⟨hadmitted, (getElem?_eq_getElem (hlength ▸ hj)).trans (congrArg some hresponse)⟩
  · rw [← recordShard_of_preparedKey (hready.groups.keyed g hg q.1 hrecord)]
    unfold recordShard at hitem ⊢
    rw [← hstores.shardKey]
    exact hitem

/-- A batch with a record that fails reports every record as failed. -/
theorem all_failed (hp : b.preparedOf tenantId requests = some p)
    (hbad : ∃ record ∈ p.records, ¬ b.RecordOk env record) :
    (∀ o ∈ (b.submitBatch tenantId env requests).2, ∀ r, o.result ≠ .ok r) ∧
      ∀ (j index : Nat) (request : Request) (fate : RequestFate),
        (admitted requests)[j]? = some (index, request, fate) →
        request ∈ failedRequests requests (b.submitBatch tenantId env requests).2 := by
  obtain ⟨record, hrecord, hnot⟩ := hbad
  constructor
  · intro o ho r hr
    obtain ⟨p', _, _, hp', -, -, hgood⟩ := accepted_of_mem ho hr
    cases hp.symm.trans hp'
    exact hnot (hgood record hrecord)
  · intro j index request fate hj
    have hmem := List.mem_of_getElem? hj
    obtain ⟨error, hresult, -⟩ := published_of_bad hp hrecord hnot
    have houtcome : ⟨index, request.topic, .error error⟩
        ∈ (b.submitBatch tenantId env requests).2 := by
      refine mem_submitBatch_snd.mpr (.inr ?_)
      rw [submitAdmitted_snd hp, hresult]
      exact List.mem_map.mpr ⟨_, hmem, rfl⟩
    obtain ⟨r, hr, hswap⟩ := List.mem_map.mp (mem_of_mem_filter hmem)
    have hindexed : ((request, fate), index) ∈ requests.zipIdx := by
      rw [← Prod.swap_swap r, hswap] at hr
      exact hr
    refine List.mem_map.mpr ⟨_, mem_filter.mpr ⟨hindexed, ?_⟩, rfl⟩
    exact List.any_eq_true.mpr ⟨_, houtcome, by simp [Except.isOk, Except.toBool]⟩

/-! ## Retrying a key that is stored outside the index -/

/-- Tasks end in the order in which they were spawned. -/
def Join.inOrder : Join := ⟨id, fun _ => .refl _⟩

/-- Every shard succeeds. -/
def successEnv : BatchEnv := ⟨fun _ => ⟨.ok, true, true⟩, Join.inOrder, Join.inOrder⟩

/-- Only requests of the key get through, and nothing goes wrong with them. -/
def retryFate (key : String) (request : Request) : RequestFate where
  admitted := decide (request.idempotencyKey = some key)
  valid := true
  lookup := true
  draft := some ⟨request.topic, 0, plainRecord 0, [], none⟩

/-- A key that has an owner in the batch needs no other record. -/
theorem prepareLoop_owned (b : Broker) (tenantId : String) {id : Uuid}
    {rs : Requests} (howner : p.owners.lookup key = some id)
    (hrs : ∀ r ∈ rs, r.1.idempotencyKey = some key ∧ r.2.valid = true) :
    ∃ p', b.prepareLoop tenantId p rs = some p' ∧ p'.batches = p.batches := by
  induction rs generalizing p with
  | nil => exact ⟨p, rfl, rfl⟩
  | cons r rs ih =>
    obtain ⟨hkey, hvalid⟩ := hrs r (.head _)
    have hone : b.prepareOne tenantId p r.1 r.2
        = some { p with slots := p.slots ++ [.awaiting id true (some r.1.topic)] } := by
      unfold prepareOne
      rw [if_pos hvalid, hkey]
      dsimp only
      rw [howner]
    obtain ⟨p', hloop, hbatches⟩ := ih (p := { p with
      slots := p.slots ++ [.awaiting id true (some r.1.topic)] }) howner
      fun r' hr' => hrs r' (.tail _ hr')
    exact ⟨p', by rw [prepareLoop, hone]; exact hloop, hbatches⟩

/-- The retry of a key without an entry has a record to store. -/
theorem exists_retry_record (hindex : b.dedup (⟨tenantId, key⟩ : ReservationKey).dedupKey = none)
    (hrequest : request ∈ failed) (hkey : request.idempotencyKey = some key) :
    ∃ record ∈ b.batchRecords tenantId (failed.map fun r => (r, retryFate key r)),
      record.header.reservationKey = some ⟨tenantId, key⟩ := by
  have hof : ∀ r ∈ (failed.map fun r => (r, retryFate key r)).filter fun r => r.2.admitted,
      r.1.idempotencyKey = some key ∧ r.2 = retryFate key r.1 := by
    intro r hr
    obtain ⟨hmem, hadmitted⟩ := mem_filter.mp hr
    obtain ⟨request', -, rfl⟩ := mem_map.mp hmem
    exact ⟨of_decide_eq_true hadmitted, rfl⟩
  have hmem : (request, retryFate key request)
      ∈ (failed.map fun r => (r, retryFate key r)).filter fun r => r.2.admitted :=
    mem_filter.mpr ⟨mem_map.mpr ⟨request, hrequest, rfl⟩, decide_eq_true hkey⟩
  unfold batchRecords preparedOf preparePublishBatch
  rw [admitted_map_snd]
  generalize (failed.map fun r => (r, retryFate key r)).filter (fun r => r.2.admitted) = rs at *
  cases rs with
  | nil => cases hmem
  | cons r rs =>
    obtain ⟨hrkey, hrfate⟩ := hof r (.head _)
    -- the first request brings the record, the others wait for it
    set record := stamp tenantId (some key) ⟨r.1.topic, 0, plainRecord 0, [], none⟩
    have hone : b.prepareOne tenantId ⟨[], [], []⟩ r.1 r.2
        = some (b.pushRecord ⟨[], [], []⟩ record) := by
      unfold prepareOne
      rw [hrfate, hrkey]
      simp only [retryFate, if_true, lookup_nil, hindex, map_some]
      rfl
    have hlookup : (b.pushRecord ⟨[], [], []⟩ record).owners.lookup key
        = some record.header.id := by
      have hkeyed : record.header.idempotencyKey = some key := rfl
      rw [lookup_pushRecord, if_pos hkeyed]
    have hrest : ∀ r' ∈ rs, r'.1.idempotencyKey = some key ∧ r'.2.valid = true := by
      intro r' hr'
      obtain ⟨hkey', hfate'⟩ := hof r' (.tail _ hr')
      exact ⟨hkey', by rw [hfate']; rfl⟩
    obtain ⟨p', hloop, hbatches⟩ := prepareLoop_owned b tenantId hlookup hrest
    have hprepared : b.prepareLoop tenantId ⟨[], [], []⟩ (r :: rs) = some p' := by
      rw [prepareLoop, hone]
      exact hloop
    rw [hprepared]
    refine ⟨record, ?_, reservationKey_eq_some.mpr ⟨rfl, rfl⟩⟩
    show record ∈ groupRecords _
    rw [hbatches]
    exact mem_pushRecord.mpr (.inl rfl)

theorem Stores.exists_offset (h : b.Stores stored b') (hrecord : record ∈ stored) :
    ∃ o, (b.logs (b.recordShard record)).records.length ≤ o ∧
      (b'.logs (b.recordShard record)).records[o]? = some record.item := by
  have hmem : record ∈ stored.filter fun r => decide (b.recordShard r = b.recordShard record) :=
    mem_filter.mpr ⟨hrecord, decide_eq_true rfl⟩
  obtain ⟨i, hi⟩ := mem_iff_getElem?.mp hmem
  exact ⟨_, Nat.le_add_right _ _, h.getElem? hi⟩

/-- **A keyed record that a failed batch left in its log** is stored again by the retry. -/
theorem second_record (hrecord : record ∈ b.storedOf tenantId env requests)
    (hrecordKey : record.header.idempotencyKey = some key)
    (hdedup : (b.submitBatch tenantId env requests).1.dedup = b.dedup) (hrequest : request ∈ failed)
    (hkey : request.idempotencyKey = some key) :
    ¬ ((b.submitBatch tenantId env requests).1.submitBatch tenantId successEnv
        (failed.map fun r => (r, retryFate key r))).1.OneRecord ⟨tenantId, key⟩ := by
  intro hone
  have hready := (b.batchRecords_ready tenantId requests).2 record (mem_storedOf.mp hrecord).1
  have hreservation : record.header.reservationKey = some ⟨tenantId, key⟩ :=
    reservationKey_eq_some.mpr ⟨hrecordKey, hready.1⟩
  obtain ⟨o, -, hitem⟩ := (b.submitBatch_stores tenantId env requests).exists_offset hrecord
  set b' := (b.submitBatch tenantId env requests).1
  have hindex : b'.dedup (⟨tenantId, key⟩ : ReservationKey).dedupKey = none := by
    rw [hdedup]
    exact hready.2 _ hreservation
  obtain ⟨again, hagain, hagainKey⟩ := exists_retry_record hindex hrequest hkey
  have hretry := b'.submitBatch_stores tenantId successEnv
    (failed.map fun r => (r, retryFate key r))
  obtain ⟨o', hle, hitem'⟩ := hretry.exists_offset (mem_storedOf.mpr ⟨hagain, nofun⟩)
  have hitem'' := getElem?_of_isPrefix (hretry.isPrefix _) hitem
  obtain ⟨hshard, rfl⟩ := hone _ _ _ _ _ _ hitem'' hreservation hitem' hagainKey
  rw [hshard] at hitem
  have hlt := (List.getElem?_eq_some_iff.mp hitem).1
  omega

/-- Outside the condition the outcomes are not truthful. -/
theorem batchOk_of_truthful (h : b.OutcomesTruthful tenantId env requests) :
    b.BatchOk tenantId env requests := by
  by_contra hnot
  obtain ⟨hsome, hsuccess⟩ := not_or.mp hnot
  cases hp : b.preparedOf tenantId requests with
  | none =>
    refine hsome fun record hrecord => ?_
    unfold batchRecords at hrecord
    rw [hp] at hrecord
    cases hrecord
  | some p =>
    have hready := preparePublishBatch_ready hp
    obtain ⟨failing, hfailing, hbad⟩ := not_forall₂.mp hsome
    rw [batchRecords_of_prepared hp] at hfailing
    obtain ⟨hfailed, hrequests⟩ := all_failed hp ⟨failing, hfailing, hbad⟩
    have hrequest : ∀ record ∈ b.batchRecords tenantId requests, ∃ (j index : Nat)
        (request : Request) (fate : RequestFate),
        p.slots[j]? = some (.awaiting record.header.id false none) ∧
        (admitted requests)[j]? = some (index, request, fate) ∧
        request.idempotencyKey = record.header.idempotencyKey := by
      intro record hrecord
      rw [batchRecords_of_prepared hp] at hrecord
      obtain ⟨j, request, fate, hslot, hdone, hkey⟩ := hready.awaited record hrecord
      rw [getElem?_map, map_eq_some_iff] at hdone
      obtain ⟨⟨index, _⟩, hadmitted, rfl⟩ := hdone
      exact ⟨j, index, request, fate, hslot, hadmitted, hkey⟩
    -- no group succeeds, because its records would have to be accepted
    have hnone : ∀ record ∈ b.batchRecords tenantId requests, ¬ b.Lands env record := by
      rintro record hrecord ⟨happend, hcommit⟩
      obtain ⟨j, index, request, fate, hslot, hadmitted, -⟩ := hrequest record hrecord
      rw [batchRecords_of_prepared hp] at hrecord
      obtain ⟨g, hg, hmem⟩ := mem_groupRecords.mp hrecord
      rw [hready.groups.keyed g hg record hmem] at happend hcommit
      obtain ⟨o, ho, -, r, hr, -⟩ :=
        h.accepted p hp g hg happend hcommit record hmem j index request fate _ _ hadmitted hslot
      exact hfailed o ho r hr
    -- so a group that reached its log holds a keyed record, and the retry repeats it
    refine hsuccess fun record hrecord => ⟨hnone record hrecord, fun happend => ?_⟩
    by_contra hkeyed
    obtain ⟨key, hkey⟩ := ne_none_iff_exists'.mp hkeyed
    obtain ⟨j, index, request, fate, -, hadmitted, hrequestKey⟩ := hrequest record hrecord
    obtain ⟨-, -, hdedup⟩ := published_of_bad hp (batchRecords_of_prepared hp ▸ hrecord)
      fun hok => hnone record hrecord ⟨hok.1, hok.2.1⟩
    have hmem := hrequests j index request fate hadmitted
    refine second_record (mem_storedOf.mpr ⟨hrecord, happend⟩) hkey (hdedup (hnone record hrecord))
      hmem (hrequestKey.trans hkey) ?_
    refine h.retried successEnv _ ?_ (request, retryFate key request)
      (mem_map.mpr ⟨request, hmem, rfl⟩) key (hrequestKey.trans hkey)
    rw [List.map_map]
    exact map_id _

/-- A request that is admitted and valid, for the given partition. -/
def sampleRequest (key : Option String) (partition : UInt32) (id : Nat) : Request × RequestFate :=
  (⟨"orders", key⟩, ⟨true, true, true, some ⟨"orders", partition, plainRecord id, [], none⟩⟩)

/-- Two requests for two shards, the first of them keyed. -/
def sampleBatch (id : Nat) : Requests :=
  [sampleRequest (some "once") 0 id, sampleRequest none 1 (id + 1)]

/-- The append of partition 1 fails. -/
def oneShardFails : BatchEnv where
  fate key := if key.partition = 1 then ⟨.error, true, true⟩ else ⟨.ok, true, true⟩
  appendJoin := Join.inOrder
  commitJoin := Join.inOrder

end Broker

end BetterMQ
