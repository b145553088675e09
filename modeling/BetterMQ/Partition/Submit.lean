import BetterMQ.Partition.Settle

/-!
# What a submitted batch leaves behind

* **`publishPrepared_published`** — a prepared batch succeeds as a whole or is answered with an
  error, and which of the two the fates of its records decide;
* **`submitBatch_stores`** — a batch adds to every log the records of its groups that reach it, and
  nothing else, whatever it reports;
* **`submitBatch_oneRecord`** — from an indexed state a batch stores at most one record of a key.
-/

namespace BetterMQ

open List Option

namespace Broker

variable {b b' : Broker} {tenantId : String} {env : BatchEnv} {p : PreparedBatch}
  {requests : Requests}

/-! ## The groups of a batch -/

section

variable (b : Broker) (tenantId : String)

/-- The batch that is prepared for the admitted records. -/
def preparedOf (requests : Requests) : Option PreparedBatch :=
  b.preparePublishBatch tenantId ((admitted requests).map Prod.snd)

/-- The records the batch has to store: those of the requests that are not duplicates. -/
def batchRecords (requests : Requests) : List PreparedRecord :=
  match b.preparedOf tenantId requests with
  | some p => p.records
  | none => []

/-- Those of them that reach a log, in the order of the append tasks. -/
def storedOf (env : BatchEnv) (requests : Requests) : List PreparedRecord :=
  match b.preparedOf tenantId requests with
  | some p => storedRecords env (env.appendJoin.arrange p.batches)
  | none => []

end

variable {done : Requests}

theorem Ready.grouped (h : b.Ready tenantId done p) (join : Join) :
    b.Grouped (join.arrange p.batches) := by
  intro g hg
  have hmem := (join.perm p.batches).mem_iff.mp hg
  exact ⟨h.groups.nonempty g hmem, h.groups.keyed g hmem⟩

theorem groupRecords_perm {gs gs' : List ShardBatch} (h : gs.Perm gs') :
    (groupRecords gs).Perm (groupRecords gs') := h.flatMap_right _

/-- What reaches the logs is part of what the batch has to store. -/
theorem storedOf_subperm (b : Broker) (tenantId : String) (env : BatchEnv) (requests : Requests) :
    (b.storedOf tenantId env requests).Subperm (b.batchRecords tenantId requests) := by
  unfold storedOf batchRecords
  split
  · next p _ =>
    refine List.Subperm.trans (List.Sublist.subperm ?_)
      (groupRecords_perm (env.appendJoin.perm p.batches)).subperm
    exact List.Sublist.flatMap filter_sublist _
  · exact nil_subperm

variable {record : PreparedRecord} {as : List AppendedBatch}

/-- The group of the record is appended and committed. -/
abbrev Lands (b : Broker) (env : BatchEnv) (record : PreparedRecord) : Prop :=
  (env.fate (b.preparedKey record)).append = .ok ∧ (env.fate (b.preparedKey record)).commit = true

/-- A record of the batch reaches its log unless the append of its group fails before that. -/
theorem mem_storedOf :
    record ∈ b.storedOf tenantId env requests ↔
      record ∈ b.batchRecords tenantId requests ∧
        (env.fate (b.preparedKey record)).append ≠ .error := by
  unfold storedOf batchRecords
  split
  · next p hp =>
    have hready := preparePublishBatch_ready hp
    unfold storedRecords
    simp only [mem_groupRecords, mem_filter, decide_eq_true_iff,
      (env.appendJoin.perm p.batches).mem_iff]
    constructor
    · rintro ⟨g, ⟨hg, happend⟩, hrecord⟩
      rw [hready.groups.keyed g hg record hrecord]
      exact ⟨⟨g, hg, hrecord⟩, happend⟩
    · rintro ⟨⟨g, hg, hrecord⟩, happend⟩
      rw [hready.groups.keyed g hg record hrecord] at happend
      exact ⟨g, ⟨hg, happend⟩, hrecord⟩
  · simp

/-! ## Publishing a prepared batch -/

/-- The record's group is appended, committed and, if the record is keyed, indexed. -/
abbrev RecordOk (b : Broker) (env : BatchEnv) (record : PreparedRecord) : Prop :=
  (env.fate (b.preparedKey record)).append = .ok ∧
    (env.fate (b.preparedKey record)).commit = true ∧
    (record.header.idempotencyKey ≠ none → (env.fate (b.preparedKey record)).write = true)

/-- A batch that succeeds; `qs` are its records with the messages they are stored as. -/
structure Accepted (b : Broker) (tenantId : String) (p : PreparedBatch) (b' : Broker)
    (responses : List PublishResponse) (qs : List (PreparedRecord × StoredMessage)) : Prop where
  records : (qs.map Prod.fst).Perm p.records
  stored : ∀ q ∈ qs, q.2.id = q.1.header.id ∧ q.2.partition = q.1.partition ∧
    (b'.logs (b'.recordShard q.1)).records[q.2.offset]? = some q.1.item
  index : ∀ name, ((∀ q ∈ qs, ∀ key, q.1.header.idempotencyKey = some key →
        (⟨tenantId, key⟩ : ReservationKey).dedupKey ≠ name) ∧ b'.dedup name = b.dedup name) ∨
    ∃ q ∈ qs, ∃ key, q.1.header.idempotencyKey = some key ∧
      (⟨tenantId, key⟩ : ReservationKey).dedupKey = name ∧
      b'.dedup name = some ⟨q.2.id, q.2.offset, q.2.partition⟩
  answers : List.Forall₂ (Answers qs) p.slots responses

/-- What publishing a prepared batch leaves and reports. -/
inductive Published (b : Broker) (tenantId : String) (env : BatchEnv) (p : PreparedBatch)
    (b' : Broker) : Except BatchError (List PublishResponse) → Prop where
  | ok {responses : List PublishResponse} {qs : List (PreparedRecord × StoredMessage)}
      (hall : ∀ record ∈ p.records, b.RecordOk env record)
      (h : b.Accepted tenantId p b' responses qs) : Published b tenantId env p b' (.ok responses)
  | error {error : BatchError} (hbad : ∃ record ∈ p.records, ¬ b.RecordOk env record)
      (hdedup : b'.dedup = b.dedup ∨ ∀ record ∈ p.records, b.Lands env record) :
      Published b tenantId env p b' (.error error)

theorem Appended.exists_message {a : AppendedBatch} (h : Appended b a)
    (hrecord : record ∈ a.records) : ∃ m, (record, m) ∈ a.records.zip a.appended := by
  rw [← map_fst_zip h.length.ge] at hrecord
  obtain ⟨q, hq, rfl⟩ := mem_map.mp hrecord
  exact ⟨q.2, hq⟩

theorem pairs_fst (has : ∀ a ∈ as, Appended b a) :
    (pairs as).map Prod.fst = as.flatMap AppendedBatch.records := by
  unfold pairs
  rw [map_flatMap]
  exact flatMap_congr fun a ha => map_fst_zip (has a ha).length.ge

/-- The commit stage, on groups that are all in their logs. -/
theorem commitAppended_published (has : ∀ a ∈ as, Appended b a)
    (hrecords : (as.flatMap AppendedBatch.records).Perm p.records)
    (happend : ∀ record ∈ p.records, (env.fate (b.preparedKey record)).append = .ok)
    (hslots : ∀ slot ∈ p.slots, ∀ id dup top, slot = .awaiting id dup top →
      ∃ record ∈ p.records, record.header.id = id) :
    ∃ dedup result, b.commitAppended tenantId env p.slots as
        = ({ b with dedup := dedup }, result) ∧
      b.Published tenantId env p { b with dedup := dedup } result := by
  have hwaiting : (as.filter fun a => decide (a.appended ≠ [])) = as :=
    filter_eq_self.mpr fun a ha => decide_eq_true (has a ha).nonempty
  have hmem : ∀ record, record ∈ p.records ↔ ∃ a ∈ as, record ∈ a.records := by
    intro record
    rw [← hrecords.mem_iff, mem_flatMap]
  unfold commitAppended
  rw [hwaiting]
  by_cases hcommit : ∀ a ∈ as, (env.fate a.key).commit = true
  case neg =>
    rw [if_neg (by simpa using hcommit)]
    push Not at hcommit
    obtain ⟨a, ha, hne⟩ := hcommit
    have hnonempty : a.records ≠ [] := by
      rw [← length_pos_iff, ← (has a ha).length]
      exact length_pos_iff.mpr (has a ha).nonempty
    obtain ⟨record, hrecord⟩ := exists_mem_of_ne_nil _ hnonempty
    exact ⟨b.dedup, _, rfl, .error ⟨record, (hmem record).mpr ⟨a, ha, hrecord⟩, fun h =>
      hne ((has a ha).keyed record hrecord ▸ h.2.1)⟩ (.inl rfl)⟩
  rw [if_pos (all_eq_true.mpr hcommit)]
  have hcommitted : ∀ record ∈ p.records, (env.fate (b.preparedKey record)).commit = true := by
    intro record hrecord
    obtain ⟨a, ha, hr⟩ := (hmem record).mp hrecord
    exact (has a ha).keyed record hr ▸ hcommit a ha
  have hjoin := env.commitJoin.perm as
  have has' : ∀ a ∈ env.commitJoin.arrange as, Appended b a :=
    fun a ha => has a (hjoin.mem_iff.mp ha)
  obtain ⟨dedup, hfinal, hdedup⟩ := @finalizeAll_spec b env tenantId _ p.slots b has'
  rw [hfinal]
  by_cases hwrite : ∀ a ∈ env.commitJoin.arrange as, ¬ RowsFail tenantId env a
  case neg =>
    rw [if_neg hwrite]
    push Not at hwrite
    obtain ⟨a, ha, hrows, hfail⟩ := hwrite
    obtain ⟨row, hrow⟩ := exists_mem_of_ne_nil _ hrows
    obtain ⟨q, hq, hkey⟩ := mem_filterMap.mp hrow
    have hr := (of_mem_zip hq).1
    refine ⟨dedup, _, rfl, .error ⟨q.1, (hmem q.1).mpr ⟨a, hjoin.mem_iff.mp ha, hr⟩, fun h => ?_⟩
      (.inr fun record hrecord => ⟨happend record hrecord, hcommitted record hrecord⟩)⟩
    have hwritten := h.2.2 fun hnone => by simp [hnone] at hkey
    rw [(has' a ha).keyed q.1 hr, hfail] at hwritten
    cases hwritten
  rw [if_pos hwrite]
  have hfst : ((pairs (env.commitJoin.arrange as)).map Prod.fst).Perm p.records := by
    rw [pairs_fst has']
    exact (hjoin.flatMap_right _).trans hrecords
  have hanswer : ∀ slot ∈ p.slots, ∃ r,
      (settleAll (env.commitJoin.arrange as) slot).response = some r ∧
        Answers (pairs (env.commitJoin.arrange as)) slot r := by
    refine fun slot hslot => settleAll_answers fun id dup top heq => ?_
    obtain ⟨record, hrecord, rfl⟩ := hslots slot hslot id dup top heq
    obtain ⟨q, hq, rfl⟩ := mem_map.mp (hfst.mem_iff.mpr hrecord)
    exact ⟨q, hq, rfl⟩
  obtain ⟨responses, hfinish, hanswers⟩ := finish_settleAll hanswer
  dsimp only
  rw [hfinish]
  refine ⟨dedup, _, rfl, .ok (fun record hrecord =>
    ⟨happend record hrecord, hcommitted record hrecord, fun hkeyed => ?_⟩) ⟨hfst, ?_, ?_, hanswers⟩⟩
  · obtain ⟨a, ha, hr⟩ := (hmem record).mp hrecord
    obtain ⟨key, hkey⟩ := ne_none_iff_exists'.mp hkeyed
    obtain ⟨m, hm⟩ := (has a ha).exists_message hr
    have hrow : (⟨tenantId, key⟩, ⟨m.id, m.offset, m.partition⟩) ∈ dedupRows tenantId a :=
      mem_filterMap.mpr ⟨_, hm, by rw [hkey]; rfl⟩
    have hnot := hwrite a (hjoin.mem_iff.mpr ha)
    rw [not_and] at hnot
    rw [(has a ha).keyed record hr]
    exact Bool.eq_true_of_not_eq_false (hnot (ne_nil_of_mem hrow))
  · intro q hq
    obtain ⟨a, ha, hmemq⟩ := mem_flatMap.mp hq
    exact (has' a ha).stored q hmemq
  · intro name
    rw [hdedup hwrite]
    exact writeRows_pairs b.dedup tenantId _ name

/-- **Publishing a prepared batch.** -/
theorem publishPrepared_published (hready : b.Ready tenantId done p) :
    b.Stores (storedRecords env (env.appendJoin.arrange p.batches))
        (b.publishPrepared tenantId env p).1 ∧
      b.Published tenantId env p (b.publishPrepared tenantId env p).1
        (b.publishPrepared tenantId env p).2 := by
  have hgrouped := hready.grouped env.appendJoin
  have hperm := groupRecords_perm (env.appendJoin.perm p.batches)
  obtain ⟨logs, as, hstores, happend, hrest⟩ := @appendAll_spec _ env _ hgrouped
  unfold publishPrepared
  rw [happend]
  dsimp only
  by_cases hok : ∀ g ∈ env.appendJoin.arrange p.batches, (env.fate g.key).append = .ok
  · rw [if_pos (decide_eq_true hok)]
    obtain ⟨has, hrecords⟩ := hrest hok
    have happended : ∀ record ∈ p.records, (env.fate (b.preparedKey record)).append = .ok := by
      intro record hrecord
      obtain ⟨g, hg, hr⟩ := mem_groupRecords.mp (hperm.mem_iff.mpr hrecord)
      exact ((hgrouped g hg).2 record hr).symm ▸ hok g hg
    have hslots : ∀ slot ∈ p.slots, ∀ id dup top, slot = .awaiting id dup top →
        ∃ record ∈ p.records, record.header.id = id := by
      intro slot hslot id dup top heq
      rcases hready.slots slot hslot with ⟨r, name, rfl, -⟩ | ⟨record, hrecord, _, _, rfl⟩
      · cases heq
      · cases heq
        exact ⟨record, hrecord, rfl⟩
    obtain ⟨dedup, result, hcommit, hpublished⟩ :=
      @commitAppended_published _ tenantId env p as has (hrecords ▸ hperm) happended hslots
    rw [hcommit]
    refine ⟨⟨rfl, hstores.records⟩, ?_⟩
    cases hpublished with
    | ok hall h => exact .ok hall ⟨h.records, h.stored, h.index, h.answers⟩
    | error hbad hdedup => exact .error hbad hdedup
  · rw [if_neg (by simpa using hok)]
    push Not at hok
    obtain ⟨g, hg, hne⟩ := hok
    obtain ⟨record, hrecord⟩ := exists_mem_of_ne_nil _ (hgrouped g hg).1
    have hmem := hperm.mem_iff.mp (mem_groupRecords.mpr ⟨g, hg, hrecord⟩)
    exact ⟨hstores, .error ⟨record, hmem, fun h =>
      hne ((hgrouped g hg).2 record hrecord ▸ h.1)⟩ (.inl rfl)⟩

/-! ## Submitting -/

/-- What the batch answers its admitted records with. -/
def outcomesOf (records : List Submitted) : Except BatchError (List PublishResponse) → List Outcome
  | .error error => failedOutcomes records error
  | .ok responses => (records.zip responses).map fun p => ⟨p.1.1, p.1.2.1.topic, .ok p.2⟩

theorem submitAdmitted_eq (b : Broker) (tenantId : String) (env : BatchEnv)
    (records : List Submitted) :
    b.submitAdmitted tenantId env records =
      match b.preparePublishBatch tenantId (records.map Prod.snd) with
      | some p => ((b.publishPrepared tenantId env p).1,
          outcomesOf records (b.publishPrepared tenantId env p).2)
      | none => (b, failedOutcomes records .preparation) := by
  unfold submitAdmitted
  cases b.preparePublishBatch tenantId (records.map Prod.snd) with
  | none => rfl
  | some p =>
    dsimp only
    split
    all_goals
      next hpublish =>
      rw [hpublish]
      rfl

theorem arrange_nil (join : Join) {α : Type} : join.arrange ([] : List α) = [] :=
  perm_nil.mp (join.perm [])

theorem submitAdmitted_nil (b : Broker) (tenantId : String) (env : BatchEnv) :
    b.submitAdmitted tenantId env [] = (b, []) := by
  simp [submitAdmitted, preparePublishBatch, prepareLoop, publishPrepared, arrange_nil, appendAll,
    commitAppended, finalizeAll, finish]

theorem submitBatch_fst (b : Broker) (tenantId : String) (env : BatchEnv) (requests : Requests) :
    (b.submitBatch tenantId env requests).1
      = match b.preparedOf tenantId requests with
        | some p => (b.publishPrepared tenantId env p).1
        | none => b := by
  have hadmitted : (b.submitBatch tenantId env requests).1
      = (b.submitAdmitted tenantId env (admitted requests)).1 := by
    unfold submitBatch
    split
    · next hnone => rw [hnone, submitAdmitted_nil]
    · rfl
  rw [hadmitted, submitAdmitted_eq]
  unfold preparedOf
  split <;> rfl

/-- **The logs after a batch.** -/
theorem submitBatch_stores (b : Broker) (tenantId : String) (env : BatchEnv) (requests : Requests) :
    b.Stores (b.storedOf tenantId env requests) (b.submitBatch tenantId env requests).1 := by
  rw [submitBatch_fst]
  unfold storedOf
  split
  · next p hp => exact (publishPrepared_published (preparePublishBatch_ready hp)).1
  · exact .nil b

/-! ## Records of a key -/

theorem Indexed.oneRecord {k : ReservationKey} (h : b.Indexed k) : b.OneRecord k := by
  obtain ⟨place, -, hplace⟩ := h
  intro shard o item shard' o' item' hitem hkey hitem' hkey'
  have hsame := hplace shard o item hitem hkey
  rw [hplace shard' o' item' hitem' hkey', some_inj, Prod.mk.injEq, DedupEntry.mk.injEq] at hsame
  exact ⟨hsame.1.symm, hsame.2.2.1.symm⟩

variable {stored : List PreparedRecord} {k : ReservationKey} {shard : ShardKey} {o : Nat}
  {item : Item}

/-- Records without the key leave its part of the index and of the logs alone. -/
theorem Stores.indexed_of_ne (h : b.Stores stored b') (hindexed : b.Indexed k)
    (hdedup : b'.dedup k.dedupKey = b.dedup k.dedupKey)
    (hne : ∀ record ∈ stored, record.header.reservationKey ≠ some k) : b'.Indexed k := by
  obtain ⟨place, hplace, hrecords⟩ := hindexed
  refine ⟨place, hdedup.trans hplace, fun shard o item hitem hkey => ?_⟩
  rcases h.cases hitem with hold | ⟨i, record, -, rfl, hrecord⟩
  · exact hrecords shard o item hold hkey
  · exact absurd hkey (hne record (mem_of_mem_filter (mem_of_getElem? hrecord)))

theorem index_eq_of_key {records : List PreparedRecord} (h : (recordKeys records).Nodup) {i j : Nat}
    {record record' : PreparedRecord} {key : String} (hi : records[i]? = some record)
    (hj : records[j]? = some record') (hkey : record.header.idempotencyKey = some key)
    (hkey' : record'.header.idempotencyKey = some key) : i = j := by
  unfold recordKeys at h
  rw [nodup_iff_pairwise_ne, pairwise_filterMap, pairwise_iff_getElem] at h
  obtain ⟨hilt, rfl⟩ := List.getElem?_eq_some_iff.mp hi
  obtain ⟨hjlt, rfl⟩ := List.getElem?_eq_some_iff.mp hj
  rcases Nat.lt_trichotomy i j with hlt | heq | hgt
  · exact absurd rfl (h i j hilt hjlt hlt key hkey key hkey')
  · exact heq
  · exact absurd rfl (h j i hjlt hilt hgt key hkey' key hkey)

theorem reservationKey_eq_some :
    record.header.reservationKey = some k ↔
      record.header.idempotencyKey = some k.idempotencyKey ∧
        record.header.tenantId = k.tenantId := by
  obtain ⟨tenant, key⟩ := k
  unfold LogRecord.reservationKey
  rw [map_eq_some_iff]
  constructor
  · rintro ⟨key', hkey', heq⟩
    cases heq
    exact ⟨hkey', rfl⟩
  · rintro ⟨hkey, rfl⟩
    exact ⟨key, hkey, rfl⟩

/-- **One record a key**: with at most one new record of each key, and none of a key that the
index has, at most one record of a key is stored. -/
theorem Stores.oneRecord (h : b.Stores stored b') (hindexed : b.Indexed k)
    (honce : (recordKeys stored).Nodup)
    (hunindexed : ∀ record ∈ stored, record.header.reservationKey = some k →
      b.dedup k.dedupKey = none) : b'.OneRecord k := by
  by_cases hnone : ∀ record ∈ stored, record.header.reservationKey ≠ some k
  · -- nothing of the key is added
    have hsame : ({ b' with dedup := b.dedup } : Broker).Indexed k :=
      Stores.indexed_of_ne ⟨h.physical, h.records⟩ hindexed rfl hnone
    exact hsame.oneRecord
  · -- what is stored of the key is new
    push Not at hnone
    obtain ⟨record₀, hmem₀, hkey₀⟩ := hnone
    have hnew : ∀ shard o item, (b'.logs shard).records[o]? = some item →
        item.1.reservationKey = some k → ∃ i record,
          o = (b.logs shard).records.length + i ∧ record.header.reservationKey = some k ∧
          (stored.filter fun r => decide (b.recordShard r = shard))[i]? = some record := by
      intro shard o item hitem hkey
      rcases h.cases hitem with hold | ⟨i, record, ho, rfl, hrecord⟩
      · obtain ⟨place, hplace, hrecords⟩ := hindexed
        have hfound := hrecords shard o item hold hkey
        rw [hunindexed record₀ hmem₀ hkey₀, hfound] at hplace
        cases hplace
      · exact ⟨i, record, ho, hkey, hrecord⟩
    intro shard o item shard' o' item' hitem hkey hitem' hkey'
    obtain ⟨i, record, rfl, hrkey, hrecord⟩ := hnew shard o item hitem hkey
    obtain ⟨i', record', rfl, hrkey', hrecord'⟩ := hnew shard' o' item' hitem' hkey'
    obtain ⟨hmem, hshard⟩ := mem_filter.mp (mem_of_getElem? hrecord)
    obtain ⟨hmem', hshard'⟩ := mem_filter.mp (mem_of_getElem? hrecord')
    obtain ⟨n, hn⟩ := mem_iff_getElem?.mp hmem
    obtain ⟨n', hn'⟩ := mem_iff_getElem?.mp hmem'
    have hidx := index_eq_of_key honce hn hn' (reservationKey_eq_some.mp hrkey).1
      (reservationKey_eq_some.mp hrkey').1
    rw [hidx, hn'] at hn
    cases hn
    have hsame : shard = shard' :=
      (of_decide_eq_true hshard).symm.trans (of_decide_eq_true hshard')
    subst hsame
    have hsub : (recordKeys (stored.filter fun r => decide (b.recordShard r = shard))).Nodup :=
      honce.sublist (filter_sublist.filterMap _)
    rw [index_eq_of_key hsub hrecord hrecord' (reservationKey_eq_some.mp hrkey).1
      (reservationKey_eq_some.mp hrkey').1]
    exact ⟨rfl, rfl⟩

theorem batchRecords_ready (b : Broker) (tenantId : String) (requests : Requests) :
    (recordKeys (b.batchRecords tenantId requests)).Nodup ∧
      ∀ record ∈ b.batchRecords tenantId requests, record.header.tenantId = tenantId ∧
        ∀ k : ReservationKey, record.header.reservationKey = some k →
          b.dedup k.dedupKey = none := by
  unfold batchRecords
  split
  · next p hp =>
    have hready := preparePublishBatch_ready hp
    refine ⟨hready.once, fun record hrecord => ⟨(hready.stamped record hrecord).1, ?_⟩⟩
    rintro ⟨tenant, key⟩ hkey
    obtain ⟨hkey, htenant⟩ := reservationKey_eq_some.mp hkey
    rw [(hready.stamped record hrecord).1] at htenant
    subst htenant
    exact hready.unindexed key (mem_filterMap.mpr ⟨record, hrecord, hkey⟩)
  · simp [recordKeys]

/-- **A batch stores at most one record of a key**, whatever fails. -/
theorem submitBatch_oneRecord (hindexed : b.Indexed k) (tenantId : String) (env : BatchEnv)
    (requests : Requests) :
    (b.submitBatch tenantId env requests).1.OneRecord k := by
  obtain ⟨honce, hrecords⟩ := b.batchRecords_ready tenantId requests
  have hsub := b.storedOf_subperm tenantId env requests
  refine (b.submitBatch_stores tenantId env requests).oneRecord hindexed ?_ ?_
  · obtain ⟨records, hperm, hsublist⟩ := hsub
    exact (hperm.filterMap _).nodup_iff.mp (honce.sublist (hsublist.filterMap _))
  · intro record hrecord hkey
    exact (hrecords record (hsub.subset hrecord)).2 k hkey

end Broker

end BetterMQ
