import BetterMQ.Partition.Prepare
import BetterMQ.Partition.Truth
import Mathlib.Data.List.Flatten
import Mathlib.Data.List.Forall2

/-!
# What appending and finalizing groups does

* **`appendAll_spec`** — the append tasks, in whatever order they end, leave every log with the
  records of its groups behind the old ones, those of failed appends that reached the log included;
* **`finalizeAll_spec`** — finalizing the appended groups writes one index row for every keyed
  record and fills every slot that awaits one of their records.
-/

namespace BetterMQ

open Function List

/-- The response in a slot. -/
def Slot.response : Slot → Option PublishResponse
  | .existing r | .final r => some r
  | .awaiting _ _ _ => none

namespace Broker

variable {b b' b'' : Broker} {env : BatchEnv} {g : ShardBatch} {gs : List ShardBatch}

/-! ## Records behind the logs -/

/-- The log a record goes to. -/
def recordShard (b : Broker) (record : PreparedRecord) : ShardKey :=
  b.shardKey record.topic record.partition

theorem recordShard_of_preparedKey {record : PreparedRecord} (h : b.preparedKey record = g.key) :
    b.recordShard record = g.shard := by
  unfold ShardBatch.shard
  rw [← h]
  rfl

/-- The logs of `b` with `stored` behind them, each record in its own. -/
structure Stores (b : Broker) (stored : List PreparedRecord) (b' : Broker) : Prop where
  physical : b'.physical = b.physical
  records : ∀ shard, (b'.logs shard).records = (b.logs shard).records ++
    (stored.filter fun record => decide (b.recordShard record = shard)).map PreparedRecord.item

variable {stored stored' : List PreparedRecord} {shard : ShardKey} {o : Nat} {item : Item}
  {record : PreparedRecord}

theorem Stores.nil (b : Broker) : b.Stores [] b := ⟨rfl, by simp⟩

section

variable (h : b.Stores stored b')

include h

theorem Stores.shardKey : b'.shardKey = b.shardKey := by
  funext topic partition
  unfold Broker.shardKey storageNamespace
  rw [h.physical]

theorem Stores.trans (h' : b'.Stores stored' b'') :
    b.Stores (stored ++ stored') b'' where
  physical := h'.physical.trans h.physical
  records shard := by
    rw [h'.records, h.records, filter_append, map_append, append_assoc]
    unfold recordShard
    rw [h.shardKey]

theorem Stores.isPrefix (shard : ShardKey) :
    (b.logs shard).records <+: (b'.logs shard).records := by
  rw [h.records]
  exact prefix_append _ _

theorem Stores.cases (hitem : (b'.logs shard).records[o]? = some item) :
    (b.logs shard).records[o]? = some item ∨
      ∃ i record, o = (b.logs shard).records.length + i ∧ item = record.item ∧
        (stored.filter fun record => decide (b.recordShard record = shard))[i]? = some record := by
  rw [h.records] at hitem
  by_cases hlt : o < (b.logs shard).records.length
  · rw [getElem?_append_left hlt] at hitem
    exact .inl hitem
  · rw [getElem?_append_right (Nat.le_of_not_lt hlt), getElem?_map] at hitem
    obtain ⟨record, hrecord, rfl⟩ := Option.map_eq_some_iff.mp hitem
    exact .inr ⟨_, record, by omega, rfl, hrecord⟩

theorem Stores.getElem? {i : Nat}
    (hi : (stored.filter fun record => decide (b.recordShard record = shard))[i]? = some record) :
    (b'.logs shard).records[(b.logs shard).records.length + i]? = some record.item := by
  rw [h.records, getElem?_append_right (Nat.le_add_right _ _), Nat.add_sub_cancel_left,
    getElem?_map, hi]
  rfl

end

/-! ## One group -/

/-- The records of a group as they were appended: each in its log, at the offset of its message. -/
structure Appended (b : Broker) (a : AppendedBatch) : Prop where
  nonempty : a.appended ≠ []
  length : a.appended.length = a.records.length
  keyed : ∀ record ∈ a.records, b.preparedKey record = a.key
  stored : ∀ q ∈ a.records.zip a.appended, q.2.id = q.1.header.id ∧
    q.2.partition = q.1.partition ∧
    (b.logs (b.recordShard q.1)).records[q.2.offset]? = some q.1.item

theorem mem_zip_messagesFrom {partition : UInt32} {first : Nat} {records : List PreparedRecord}
    {q : PreparedRecord × StoredMessage}
    (h : q ∈ records.zip (messagesFrom partition first (records.map PreparedRecord.item))) :
    ∃ i, records[i]? = some q.1 ∧
      q.2 = storedMessage q.1.header q.1.payload partition (first + i) := by
  induction records generalizing first with
  | nil => simp at h
  | cons record records ih =>
    rcases mem_cons.mp h with rfl | htail
    · exact ⟨0, rfl, rfl⟩
    · obtain ⟨i, hi, hmessage⟩ := ih htail
      exact ⟨i + 1, hi, by rw [hmessage, Nat.add_right_comm, Nat.add_assoc]⟩

theorem filter_recordShard (hkeyed : ∀ record ∈ g.records, b.preparedKey record = g.key) :
    (g.records.filter fun record => decide (b.recordShard record = g.shard)) = g.records :=
  filter_eq_self.mpr fun record hrecord =>
    decide_eq_true (recordShard_of_preparedKey (hkeyed record hrecord))

/-- **One group**: its records go behind its log, unless the append fails before that. -/
theorem appendPreparedBatch_spec (hne : g.records ≠ [])
    (hkeyed : ∀ record ∈ g.records, b.preparedKey record = g.key) (result : AppendResult) :
    ∃ logs, b.Stores (if result = .error then [] else g.records) { b with logs := logs } ∧
      b.appendPreparedBatch g result = ({ b with logs := logs },
        if result = .ok then some ⟨g.key, g.records, messagesFrom g.key.partition
          (b.logs g.shard).records.length (g.records.map PreparedRecord.item)⟩ else none) := by
  obtain ⟨first, rest, hrecords⟩ := exists_cons_of_ne_nil hne
  have hfirst := hkeyed first (by rw [hrecords]; exact .head _)
  have hshard : b.shardKey first.topic g.key.partition = g.shard := by
    rw [← recordShard_of_preparedKey hfirst, ← hfirst]
    rfl
  have hstores : ∀ synced, b.Stores g.records
      { b with logs := b.appendItems g.shard (g.records.map PreparedRecord.item) synced } := by
    refine fun synced => ⟨rfl, fun shard => ?_⟩
    unfold appendItems
    by_cases h : shard = g.shard
    · subst h
      rw [filter_recordShard hkeyed]
      cases synced <;> simp
    · have hnone : (g.records.filter fun record => decide (b.recordShard record = shard)) = [] := by
        refine filter_eq_nil_iff.mpr fun record hrecord heq => h ?_
        rw [← of_decide_eq_true heq, recordShard_of_preparedKey (hkeyed record hrecord)]
      simp [hnone, update_of_ne h]
  unfold appendPreparedBatch
  cases result with
  | error => exact ⟨b.logs, .nil b, by rw [hrecords]; rfl⟩
  | ok =>
    refine ⟨_, hstores (decide (b.fsync = .always)), ?_⟩
    rw [hrecords]
    simp only [hshard]
    rfl
  | errorStored =>
    refine ⟨_, hstores false, ?_⟩
    rw [hrecords]
    simp only [hshard]
    rfl

theorem Stores.appended (h : b.Stores g.records b') (hne : g.records ≠ [])
    (hkeyed : ∀ record ∈ g.records, b.preparedKey record = g.key) :
    Appended b' ⟨g.key, g.records, messagesFrom g.key.partition (b.logs g.shard).records.length
      (g.records.map PreparedRecord.item)⟩ where
  nonempty := by
    rw [← length_pos_iff, length_messagesFrom, length_map]
    exact length_pos_iff.mpr hne
  length := by rw [length_messagesFrom, length_map]
  keyed record hrecord := by
    rw [← hkeyed record hrecord]
    unfold preparedKey storageNamespace
    rw [h.physical]
  stored q hq := by
    obtain ⟨i, hi, hmessage⟩ := mem_zip_messagesFrom hq
    have hgroup := hkeyed q.1 (mem_of_getElem? hi)
    have hitem := h.getElem? ((filter_recordShard hkeyed).symm ▸ hi)
    rw [hmessage]
    refine ⟨rfl, congrArg PreparedShardKey.partition hgroup.symm, ?_⟩
    unfold recordShard
    rw [h.shardKey]
    exact recordShard_of_preparedKey hgroup ▸ hitem

theorem Appended.extends {a : AppendedBatch} (h : Appended b a) (hext : b.Stores stored b') :
    Appended b' a where
  nonempty := h.nonempty
  length := h.length
  keyed record hrecord := by
    rw [← h.keyed record hrecord]
    unfold preparedKey storageNamespace
    rw [hext.physical]
  stored q hq := by
    obtain ⟨hid, hpartition, hitem⟩ := h.stored q hq
    unfold recordShard
    rw [hext.shardKey]
    exact ⟨hid, hpartition, getElem?_of_isPrefix (hext.isPrefix _) hitem⟩

/-! ## All groups -/

/-- Groups as preparing leaves them. -/
def Grouped (b : Broker) (gs : List ShardBatch) : Prop :=
  ∀ g ∈ gs, g.records ≠ [] ∧ ∀ record ∈ g.records, b.preparedKey record = g.key

/-- The records of the groups whose append reaches the log. -/
def storedRecords (env : BatchEnv) (gs : List ShardBatch) : List PreparedRecord :=
  groupRecords (gs.filter fun g => decide ((env.fate g.key).append ≠ .error))

theorem storedRecords_cons (env : BatchEnv) (g : ShardBatch) (gs : List ShardBatch) :
    storedRecords env (g :: gs)
      = (if (env.fate g.key).append = .error then [] else g.records) ++ storedRecords env gs := by
  unfold storedRecords
  by_cases herror : (env.fate g.key).append = .error
  · rw [filter_cons_of_neg (by simp [herror]), if_pos herror, nil_append]
  · rw [filter_cons_of_pos (by simp [herror]), if_neg herror, groupRecords_cons]

/-- **The append tasks**, in the order in which they end. -/
theorem appendAll_spec (hgs : b.Grouped gs) :
    ∃ logs as, b.Stores (storedRecords env gs) { b with logs := logs } ∧
      b.appendAll env gs = ({ b with logs := logs }, as,
        decide (∀ g ∈ gs, (env.fate g.key).append = .ok)) ∧
      ((∀ g ∈ gs, (env.fate g.key).append = .ok) →
        (∀ a ∈ as, Appended { b with logs := logs } a) ∧
          as.flatMap AppendedBatch.records = groupRecords gs) := by
  induction gs generalizing b with
  | nil => exact ⟨b.logs, [], .nil b, by simp [appendAll], fun _ => ⟨by simp, rfl⟩⟩
  | cons g gs ih =>
    obtain ⟨hne, hkeyed⟩ := hgs g (.head _)
    obtain ⟨logs₁, hstores₁, hfirst⟩ :=
      appendPreparedBatch_spec hne hkeyed (env.fate g.key).append
    obtain ⟨logs, as, hstores, hrest, happended⟩ := ih (b := { b with logs := logs₁ })
      fun g' hg' => hgs g' (.tail _ hg')
    have hall := storedRecords_cons env g gs ▸ hstores₁.trans hstores
    unfold appendAll
    rw [hfirst]
    by_cases hok : (env.fate g.key).append = .ok
    · simp only [hok, reduceCtorEq, if_false] at hstores₁
      refine ⟨logs, _ :: as, hall, by simp [hok, hrest]; rfl, fun h => ?_⟩
      obtain ⟨hlater, hrecords⟩ := happended fun g' hg' => h g' (.tail _ hg')
      refine ⟨forall_mem_cons.mpr ⟨(hstores₁.appended hne hkeyed).extends hstores, hlater⟩, ?_⟩
      rw [flatMap_cons, hrecords, groupRecords_cons]
    · exact ⟨logs, as, hall, by simp [hok, hrest], fun h => absurd (h g (.head _)) hok⟩

/-! ## Finalizing -/

/-- The slots after finalizing the groups one by one. -/
def settleAll (as : List AppendedBatch) (slot : Slot) : Slot :=
  as.foldl (fun s a => settleSlot (responsesOf a) s) slot

/-- Finalizing fails on a group with keyed records whose index write fails. -/
abbrev RowsFail (tenantId : String) (env : BatchEnv) (a : AppendedBatch) : Prop :=
  dedupRows tenantId a ≠ [] ∧ (env.fate a.key).write = false

variable {tenantId : String} {a : AppendedBatch} {as : List AppendedBatch} {slots : List Slot}
  {slot : Slot}

/-- The checks of `finalize_prepared_batch` pass on what `append_prepared_batch` returned. -/
theorem finalizePreparedBatch_eq (h : Appended b a) (b' : Broker) (tenantId : String)
    (slots : List Slot) (write : Bool) :
    b'.finalizePreparedBatch tenantId slots a true write =
      if dedupRows tenantId a ≠ [] ∧ write = false then none
      else some ({ b' with dedup := writeRows b'.dedup (dedupRows tenantId a) },
        slots.map (settleSlot (responsesOf a))) := by
  have hsame : ¬ ((a.records.zip a.appended).any fun p =>
      decide (p.1.header.id ≠ p.2.id ∨ p.1.partition ≠ p.2.partition)) = true := by
    rw [any_eq_true]
    rintro ⟨q, hq, hne⟩
    obtain ⟨hid, hpartition, -⟩ := h.stored q hq
    rcases of_decide_eq_true hne with hne | hne
    · exact hne hid.symm
    · exact hne hpartition.symm
  unfold finalizePreparedBatch
  rw [if_neg (fun hne => hne h.length), if_neg hsame]
  rfl

theorem writeRows_append (dedup : String → Option DedupEntry)
    (rows rows' : List (ReservationKey × DedupEntry)) :
    writeRows dedup (rows ++ rows') = writeRows (writeRows dedup rows) rows' := by
  induction rows generalizing dedup with
  | nil => rfl
  | cons row rows ih => exact ih _

/-- An entry is the old one, or comes from a row of its name. -/
theorem writeRows_cases (dedup : String → Option DedupEntry)
    (rows : List (ReservationKey × DedupEntry)) (name : String) :
    ((∀ row ∈ rows, row.1.dedupKey ≠ name) ∧ writeRows dedup rows name = dedup name) ∨
      ∃ row ∈ rows, row.1.dedupKey = name ∧ writeRows dedup rows name = some row.2 := by
  induction rows generalizing dedup with
  | nil => exact .inl ⟨by simp, rfl⟩
  | cons row rows ih =>
    rcases ih (update dedup row.1.dedupKey (some row.2)) with ⟨hnone, hold⟩ | hsome
    · by_cases hname : row.1.dedupKey = name
      · refine .inr ⟨row, .head _, hname, ?_⟩
        rw [writeRows, hold, hname, update_self]
      · refine .inl ⟨forall_mem_cons.mpr ⟨hname, hnone⟩, ?_⟩
        rw [writeRows, hold, update_of_ne (Ne.symm hname)]
    · obtain ⟨row', hmem, hrest⟩ := hsome
      exact .inr ⟨row', .tail _ hmem, hrest⟩

/-- **Finalizing the groups**: all of them, or up to one whose index write fails. -/
theorem finalizeAll_spec {b₀ : Broker} (has : ∀ a ∈ as, Appended b₀ a) :
    ∃ dedup, b.finalizeAll tenantId env slots as = ({ b with dedup := dedup },
        if ∀ a ∈ as, ¬ RowsFail tenantId env a then some (slots.map (settleAll as)) else none) ∧
      ((∀ a ∈ as, ¬ RowsFail tenantId env a) →
        dedup = writeRows b.dedup (as.flatMap (dedupRows tenantId))) := by
  induction as generalizing b slots with
  | nil =>
    have hsame : settleAll [] = id := rfl
    exact ⟨b.dedup, by simp [finalizeAll, hsame], fun _ => rfl⟩
  | cons a as ih =>
    rw [finalizeAll, finalizePreparedBatch_eq (has a (.head _))]
    by_cases hfail : RowsFail tenantId env a
    · refine ⟨b.dedup, ?_, fun h => absurd hfail (h a (.head _))⟩
      rw [if_pos hfail, if_neg fun h => h a (.head _) hfail]
    · rw [if_neg hfail]
      obtain ⟨dedup, hrest, hdedup⟩ := @ih { b with
        dedup := writeRows b.dedup (dedupRows tenantId a) } (slots.map (settleSlot (responsesOf a)))
        fun a' ha' => has a' (.tail _ ha')
      refine ⟨dedup, ?_, fun h => ?_⟩
      · dsimp only
        rw [hrest]
        simp only [forall_mem_cons, hfail, not_false_eq_true, true_and, map_map]
        rfl
      · rw [hdedup fun a' ha' => h a' (.tail _ ha'), flatMap_cons, writeRows_append]

/-! ## Slots and rows -/

/-- The records of appended groups with the messages they are stored as. -/
def pairs (as : List AppendedBatch) : List (PreparedRecord × StoredMessage) :=
  as.flatMap fun a => a.records.zip a.appended

/-- The response to a slot, from the records that were stored. -/
def Answers (qs : List (PreparedRecord × StoredMessage)) : Slot → PublishResponse → Prop
  | .existing r, r' | .final r, r' => r' = r
  | .awaiting id dup top, r => ∃ q ∈ qs, q.1.header.id = id ∧
    r = ⟨q.2.id, top.getD q.1.topic, q.1.partition, q.2.offset, dup⟩

theorem mem_of_lookup {α β : Type} [BEq α] [LawfulBEq α] {xs : List (α × β)} {x : α} {y : β}
    (h : xs.lookup x = some y) : (x, y) ∈ xs := by
  obtain ⟨before, after, rfl, -⟩ := lookup_eq_some_iff.mp h
  exact mem_append_right _ (.head _)

theorem settleAll_settled {r : PublishResponse} (h : slot.response = some r) :
    settleAll as slot = slot := by
  induction as with
  | nil => rfl
  | cons a as ih =>
    cases slot with
    | existing r | final r => exact ih
    | awaiting id dup top => cases h

/-- **A slot whose record was appended is filled** from such a record. -/
theorem settleAll_answers
    (h : ∀ id dup top, slot = .awaiting id dup top → ∃ q ∈ pairs as, q.1.header.id = id) :
    ∃ r, (settleAll as slot).response = some r ∧ Answers (pairs as) slot r := by
  cases slot with
  | existing r | final r => exact ⟨r, by rw [settleAll_settled rfl]; rfl, rfl⟩
  | awaiting id dup top =>
    have hsome := h id dup top rfl
    clear h
    induction as with
    | nil => simp [pairs] at hsome
    | cons a as ih =>
      have hfold : settleAll (a :: as) (.awaiting id dup top)
          = settleAll as (settleSlot (responsesOf a) (.awaiting id dup top)) := rfl
      have hpairs : pairs (a :: as) = a.records.zip a.appended ++ pairs as := flatMap_cons
      rw [hfold, settleSlot]
      cases hlookup : (responsesOf a).reverse.lookup id with
      | some r =>
        -- filled here, and a final slot stays
        obtain ⟨q, hq, hpair⟩ := mem_map.mp (mem_reverse.mp (mem_of_lookup hlookup))
        cases hpair
        refine ⟨_, ?_, q, mem_append_left _ hq, rfl, rfl⟩
        rw [settleAll_settled rfl]
        rfl
      | none =>
        have hlater : ∃ q ∈ pairs as, q.1.header.id = id := by
          obtain ⟨q, hq, hid⟩ := hsome
          rcases mem_append.mp (hpairs ▸ hq) with hfirst | hrest
          · rw [lookup_eq_none_iff] at hlookup
            have hne := hlookup _ (mem_reverse.mpr (mem_map.mpr ⟨q, hfirst, rfl⟩))
            exact absurd hid (by simpa using Ne.symm (by simpa using hne))
          · exact ⟨q, hrest, hid⟩
        obtain ⟨r, hr, q, hq, hanswer⟩ := ih hlater
        exact ⟨r, hr, q, mem_append_right _ hq, hanswer⟩

theorem finish_settleAll {qs : List (PreparedRecord × StoredMessage)}
    (h : ∀ slot ∈ slots, ∃ r, (settleAll as slot).response = some r ∧ Answers qs slot r) :
    ∃ responses, finish (slots.map (settleAll as)) = some responses ∧
      List.Forall₂ (Answers qs) slots responses := by
  induction slots with
  | nil => exact ⟨[], rfl, .nil⟩
  | cons slot slots ih =>
    obtain ⟨r, hr, hanswer⟩ := h slot (.head _)
    obtain ⟨responses, hfinish, hanswers⟩ := ih fun s hs => h s (.tail _ hs)
    refine ⟨r :: responses, ?_, .cons hanswer hanswers⟩
    rw [map_cons]
    cases hslot : settleAll as slot with
    | awaiting id dup top =>
      rw [hslot] at hr
      cases hr
    | existing r' | final r' =>
      rw [hslot] at hr
      cases hr
      rw [finish, hfinish]
      rfl

/-- An entry after finalizing is the old one, or names a record that was stored under its name. -/
theorem writeRows_pairs (dedup : String → Option DedupEntry) (tenantId : String)
    (as : List AppendedBatch) (name : String) :
    ((∀ q ∈ pairs as, ∀ key, q.1.header.idempotencyKey = some key →
        (⟨tenantId, key⟩ : ReservationKey).dedupKey ≠ name) ∧
      writeRows dedup (as.flatMap (dedupRows tenantId)) name = dedup name) ∨
    ∃ q ∈ pairs as, ∃ key, q.1.header.idempotencyKey = some key ∧
      (⟨tenantId, key⟩ : ReservationKey).dedupKey = name ∧
      writeRows dedup (as.flatMap (dedupRows tenantId)) name
        = some ⟨q.2.id, q.2.offset, q.2.partition⟩ := by
  have hrows : ∀ row, row ∈ as.flatMap (dedupRows tenantId) ↔ ∃ q ∈ pairs as, ∃ key,
      q.1.header.idempotencyKey = some key ∧
        (⟨tenantId, key⟩, ⟨q.2.id, q.2.offset, q.2.partition⟩) = row := by
    intro row
    simp only [pairs, dedupRows, mem_flatMap, mem_filterMap, Option.map_eq_some_iff]
    constructor
    · rintro ⟨a, ha, q, hq, hrow⟩
      exact ⟨q, ⟨a, ha, hq⟩, hrow⟩
    · rintro ⟨q, ⟨a, ha, hq⟩, hrow⟩
      exact ⟨a, ha, q, hq, hrow⟩
  rcases writeRows_cases dedup (as.flatMap (dedupRows tenantId)) name with
    ⟨hnone, hsame⟩ | ⟨row, hrow, hname, hentry⟩
  · refine .inl ⟨fun q hq key hkey => ?_, hsame⟩
    exact hnone (⟨tenantId, key⟩, _) ((hrows _).mpr ⟨q, hq, key, hkey, rfl⟩)
  · obtain ⟨q, hq, key, hkey, rfl⟩ := (hrows row).mp hrow
    exact .inr ⟨q, hq, key, hkey, hname, hentry⟩

end Broker

end BetterMQ
