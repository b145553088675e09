import BetterMQ.Lib.Slots
import BetterMQ.Proto.Record

/-!
# Reading a shard log

A shard's log as the broker reads it: the records by offset, and the offsets that were purged.
`list_topic_messages_from` pages through it and keeps the records of one topic.

* **`listTopicMessagesFrom_eq`** — the paging loop returns the first `limit` records of the topic
  from the start offset on, in the order of their offsets.
-/

namespace BetterMQ

open List

/-- The log of a shard on one node. -/
structure ShardLog where
  records : List Item
  /-- Offsets that were purged or collected. -/
  removed : List Nat
  /-- `committed_hwm`. -/
  committed : Nat
  deriving DecidableEq

namespace ShardLog

/-- The records that can be read, with their offsets. -/
def readable (log : ShardLog) (start : Nat) : List (Nat × Item) :=
  (log.records.zipIdx.map Prod.swap).filter fun x => start ≤ x.1 ∧ x.1 ∉ log.removed

def readRange (log : ShardLog) (start limit : Nat) : List (Nat × Item) :=
  (log.readable start).take limit

/-- The loop of `list_topic_messages_from`. -/
def listTopicLoop (log : ShardLog) (topic : String) (limit : Nat) :
    Nat → Nat → List (Nat × Item) → List (Nat × Item)
  | 0, _, out => out
  | fuel + 1, cursor, out =>
    if out.length < limit then
      let remaining := limit - out.length
      let scan := min (max (remaining * 2) 64) 1024
      let batch := log.readRange cursor scan
      match batch.getLast? with
      | none => out
      | some last =>
        let out := out ++ (batch.filter fun x => x.2.1.topic = topic).take remaining
        if log.records.length ≤ last.1 + 1 then out
        else listTopicLoop log topic limit fuel (last.1 + 1) out
    else out

/-- `list_topic_messages_from`. Every round reads a record, so the records are rounds enough. -/
def listTopicMessagesFrom (log : ShardLog) (topic : String) (start limit : Nat) :
    List (Nat × Item) :=
  listTopicLoop log topic limit (log.records.length + 1) start []

variable {log : ShardLog} {x last : Nat × Item} {start count : Nat}

theorem mem_readable :
    x ∈ log.readable start ↔
      log.records[x.1]? = some x.2 ∧ start ≤ x.1 ∧ x.1 ∉ log.removed := by
  obtain ⟨offset, item⟩ := x
  simp only [readable, mem_filter, mem_map, decide_eq_true_eq]
  constructor
  · rintro ⟨⟨⟨i, k⟩, hmem, heq⟩, hstart⟩
    cases heq
    exact ⟨mem_zipIdx_iff_getElem?.mp hmem, hstart⟩
  · rintro ⟨hget, hstart⟩
    exact ⟨⟨(item, offset), mem_zipIdx_iff_getElem?.mpr hget, rfl⟩, hstart⟩

theorem readable_sorted (log : ShardLog) (start : Nat) :
    (log.readable start).Pairwise fun x y => x.1 < y.1 := by
  refine List.Pairwise.filter _ ?_
  rw [pairwise_map]
  have hsnd : (log.records.zipIdx.map Prod.snd).Pairwise (· < ·) := by
    rw [zipIdx_map_snd]
    exact pairwise_lt_range'
  exact pairwise_map.mp hsnd

theorem readable_filter {next : Nat} (h : start ≤ next) :
    log.readable next = (log.readable start).filter fun x => next ≤ x.1 := by
  rw [readable, readable, filter_filter]
  refine filter_congr fun x _ => ?_
  rw [Bool.eq_iff_iff]
  simp only [Bool.and_eq_true, decide_eq_true_eq]
  constructor
  · rintro ⟨hle, hkept⟩
    exact ⟨hle, h.trans hle, hkept⟩
  · rintro ⟨hle, -, hkept⟩
    exact ⟨hle, hkept⟩

theorem le_last {batch : List (Nat × Item)} (hsorted : batch.Pairwise fun x y => x.1 < y.1)
    {x : Nat × Item} (h : batch.getLast? = some last) (hx : x ∈ batch) : x.1 ≤ last.1 := by
  obtain ⟨init, rfl⟩ := getLast?_eq_some_iff.mp h
  obtain ⟨-, -, hbefore⟩ := pairwise_append.mp hsorted
  rcases mem_append.mp hx with hold | hlast
  · exact Nat.le_of_lt (hbefore x hold last (mem_singleton.mpr rfl))
  · rw [mem_singleton.mp hlast]

theorem filter_after {records : List (Nat × Item)} (hsorted : records.Pairwise fun x y => x.1 < y.1)
    (h : (records.take count).getLast? = some last) :
    (records.filter fun x => last.1 + 1 ≤ x.1) = records.drop count := by
  have hmem : last ∈ records.take count := mem_of_getLast? h
  rw [← take_append_drop count records] at hsorted
  obtain ⟨htake, -, hcross⟩ := pairwise_append.mp hsorted
  nth_rewrite 1 [← take_append_drop count records]
  rw [filter_append]
  -- nothing of the batch is behind its last record, everything else is
  have hbatch : (records.take count).filter (fun x => last.1 + 1 ≤ x.1) = [] := by
    refine filter_eq_nil_iff.mpr fun x hx => ?_
    have := le_last htake h hx
    rw [decide_eq_true_eq]
    omega
  have hrest : (records.drop count).filter (fun x => last.1 + 1 ≤ x.1) = records.drop count := by
    refine filter_eq_self.mpr fun x hx => ?_
    rw [decide_eq_true_eq]
    exact hcross last hmem x hx
  rw [hbatch, hrest, nil_append]

theorem readable_after (h : ((log.readable start).take count).getLast? = some last) :
    log.readable (last.1 + 1) = (log.readable start).drop count := by
  have hmem : last ∈ (log.readable start).take count := mem_of_getLast? h
  have hstart : start ≤ last.1 + 1 :=
    Nat.le_succ_of_le (mem_readable.mp (mem_of_mem_take hmem)).2.1
  rw [readable_filter hstart]
  exact filter_after (log.readable_sorted start) h

/-- The records of a topic from an offset on. -/
def topicFrom (log : ShardLog) (topic : String) (start : Nat) : List (Nat × Item) :=
  (log.readable start).filter fun x => x.2.1.topic = topic

variable {topic : String}

theorem topicFrom_length_le (start : Nat) :
    (log.topicFrom topic start).length ≤ log.records.length := by
  refine Nat.le_trans (length_filter_le _ _) (Nat.le_trans (length_filter_le _ _) ?_)
  rw [length_map, length_zipIdx]

theorem listTopicLoop_eq {limit : Nat} (fuel cursor : Nat) (out : List (Nat × Item))
    (hfuel : (log.readable cursor).length < fuel) :
    listTopicLoop log topic limit fuel cursor out
      = out ++ (log.topicFrom topic cursor).take (limit - out.length) := by
  induction fuel generalizing cursor out with
  | zero => exact absurd hfuel (Nat.not_lt_zero _)
  | succ fuel ih =>
    rw [listTopicLoop]
    split
    · next hroom =>
      dsimp only
      set count := min (max ((limit - out.length) * 2) 64) 1024
      have hcount : 0 < count := by
        omega
      -- the batch, and what is behind it
      have hsplit := take_append_drop count (log.readable cursor)
      split
      · next hnone =>
        have hempty : log.readable cursor = [] := by
          have htake : (log.readable cursor).take count = [] := List.getLast?_eq_none_iff.mp hnone
          rcases take_eq_nil_iff.mp htake with hzero | hnil
          · omega
          · exact hnil
        rw [topicFrom, hempty]
        simp
      · next last hlast =>
        have hafter := readable_after hlast
        have hbatch : 0 < ((log.readable cursor).take count).length :=
          length_pos_of_mem (mem_of_getLast? hlast)
        have htopic : log.topicFrom topic cursor
            = ((log.readable cursor).take count).filter (fun x => x.2.1.topic = topic)
              ++ log.topicFrom topic (last.1 + 1) := by
          rw [topicFrom, topicFrom, hafter, ← List.filter_append, hsplit]
        have hjoin : ∀ b : List (Nat × Item), out ++ b.take (limit - out.length)
              ++ (log.topicFrom topic (last.1 + 1)).take
                (limit - (out ++ b.take (limit - out.length)).length)
              = out ++ (b ++ log.topicFrom topic (last.1 + 1)).take (limit - out.length) := by
          intro b
          rw [List.append_assoc, take_append, length_append, length_take]
          congr 3
          omega
        split
        · next hend =>
          have hnil : log.topicFrom topic (last.1 + 1) = [] := by
            refine filter_eq_nil_iff.mpr fun x hx => ?_
            obtain ⟨hget, hle, -⟩ := mem_readable.mp hx
            obtain ⟨hlt, -⟩ := List.getElem?_eq_some_iff.mp hget
            omega
          rw [htopic, hnil, append_nil]
          rfl
        · rw [ih (last.1 + 1), htopic]
          · exact hjoin _
          · rw [hafter, length_drop]
            rw [length_take] at hbatch
            omega
    · next hfull =>
      rw [Nat.sub_eq_zero_of_le (Nat.le_of_not_lt hfull), take_zero, append_nil]

/-- **What `list_topic_messages_from` returns**: the first `limit` records of the topic. -/
theorem listTopicMessagesFrom_eq (log : ShardLog) (topic : String) (start limit : Nat) :
    log.listTopicMessagesFrom topic start limit = (log.topicFrom topic start).take limit := by
  rw [listTopicMessagesFrom, listTopicLoop_eq]
  · rfl
  · refine Nat.lt_succ_of_le ?_
    refine Nat.le_trans (length_filter_le _ _) ?_
    rw [length_map, length_zipIdx]

theorem mem_topicFrom :
    x ∈ log.topicFrom topic start ↔
      (log.records[x.1]? = some x.2 ∧ start ≤ x.1 ∧ x.1 ∉ log.removed) ∧ x.2.1.topic = topic := by
  rw [topicFrom, mem_filter, mem_readable, decide_eq_true_eq]

theorem mem_topicFrom_zero (h : x ∈ log.topicFrom topic start) : x ∈ log.topicFrom topic 0 := by
  obtain ⟨⟨hget, -, hkept⟩, htopic⟩ := mem_topicFrom.mp h
  exact mem_topicFrom.mpr ⟨⟨hget, Nat.zero_le _, hkept⟩, htopic⟩

end ShardLog

end BetterMQ
