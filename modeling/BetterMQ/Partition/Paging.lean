import Mathlib.Algebra.BigOperators.Group.Finset.Basic
import BetterMQ.Partition.Tenants
import BetterMQ.Storage.Durability

/-!
# Paging through a topic

A client reads a topic page by page, each time from one past the last offset it got, and
`purge_dlq_topic` reads and purges in the same way.

* **`topic_paging_exact`** — the pages together are the unpurged messages of the topic, each once
  and by offset; the purge removes the eligible ones from the logs of the topic, and counts them.
-/

namespace BetterMQ

open Finset Function List

namespace ShardLog

variable {log : ShardLog} {topic : String}

/-- Calls of `list_topic_messages_from` until a page is empty: `none` if it takes more calls than
given. The limit of a call is a function of the calls left. -/
def pageThrough (log : ShardLog) (topic : String) (limit : Nat → Nat) :
    Nat → Nat → Option (List (Nat × Item))
  | 0, _ => none
  | calls + 1, start =>
    let page := log.listTopicMessagesFrom topic start (limit calls)
    match page.getLast? with
    | none => some []
    | some last => (page ++ ·) <$> pageThrough log topic limit calls (last.1 + 1)

theorem pageThrough_eq {limit : Nat → Nat} (hlimit : ∀ n, 0 < limit n) {calls start : Nat}
    (hcalls : (log.topicFrom topic start).length < calls) :
    log.pageThrough topic limit calls start = some (log.topicFrom topic start) := by
  induction calls generalizing start with
  | zero => exact absurd hcalls (Nat.not_lt_zero _)
  | succ calls ih =>
    rw [pageThrough, listTopicMessagesFrom_eq]
    have hpos := hlimit calls
    split
    · next hnone =>
      rcases take_eq_nil_iff.mp (getLast?_eq_none_iff.mp hnone) with hzero | hnil
      · omega
      · rw [hnil]
    · next last hlast =>
      have hpage := length_pos_of_mem (mem_of_getLast? hlast)
      rw [length_take] at hpage
      have hafter := topicFrom_after hlast
      rw [ih (by rw [hafter, length_drop]; omega), hafter]
      exact congrArg some (take_append_drop _ _)

/-- The messages of the topic that a purge removes. -/
def eligibleOf (log : ShardLog) (topic : String) (eligible : Item → Bool) : List (Nat × Item) :=
  (log.topicFrom topic 0).filter fun x => eligible x.2

variable {eligible : Item → Bool}

theorem readable_purgeTopic {x : Nat × Item} :
    x ∈ (log.purgeTopic topic eligible).2.readable 0 ↔
      x ∈ log.readable 0 ∧ ¬(x.2.1.topic = topic ∧ eligible x.2) := by
  rw [purgeTopic_eq]
  simp only [mem_readable, purgeAll, mem_append, mem_reverse, List.mem_map,
    mem_filter, mem_topicFrom]
  grind

/-- A second purge finds nothing. -/
theorem eligibleOf_purgeTopic :
    (log.purgeTopic topic eligible).2.eligibleOf topic eligible = [] := by
  refine filter_eq_nil_iff.mpr fun x hx helig => ?_
  obtain ⟨hread, htopic⟩ := List.mem_filter.mp hx
  exact (readable_purgeTopic.mp hread).2 ⟨of_decide_eq_true htopic, helig⟩

theorem purgeTopic_of_none (h : log.eligibleOf topic eligible = []) :
    log.purgeTopic topic eligible = (0, log) := by
  rw [eligibleOf] at h
  rw [purgeTopic_eq, h]
  rfl

end ShardLog

namespace Tenants

variable {cfg : Config} {tenant topic : String} {olderThanMs : Option Int64} {dir : LogDir}

/-- What a purge of the topic in some logs does to all of them. -/
structure PurgedIn (topic : String) (eligible : Item → Bool) (dirs : Finset LogDir)
    (disk disk' : LogDir → ShardLog) (count : Nat) : Prop where
  logs : ∀ dir, disk' dir =
    if dir ∈ dirs then ((disk dir).purgeTopic topic eligible).2 else disk dir
  counted : count = ∑ dir ∈ dirs, ((disk dir).eligibleOf topic eligible).length

/-- One more log, which may be one of the others. -/
theorem PurgedIn.insert {eligible : Item → Bool} {dirs : Finset LogDir}
    {disk disk' : LogDir → ShardLog} {n : Nat} (h : PurgedIn topic eligible dirs
      (Function.update disk dir ((disk dir).purgeTopic topic eligible).2) disk' n) :
    PurgedIn topic eligible (insert dir dirs) disk disk'
      (((disk dir).eligibleOf topic eligible).length + n) where
  logs other := by
    rw [h.logs other]
    by_cases heq : other = dir
    · subst heq
      simp only [update_self, mem_insert, true_or, if_true,
        ShardLog.purgeTopic_of_none ShardLog.eligibleOf_purgeTopic, ite_self]
    · simp only [update_of_ne heq, mem_insert, heq, false_or]
  counted := by
    rw [h.counted, ← add_sum_erase _ _ (mem_insert_self dir dirs),
      erase_insert_eq_erase, ← sum_erase dirs (f := fun other =>
        ((update disk dir ((disk dir).purgeTopic topic eligible).2 other).eligibleOf topic
          eligible).length)]
    · refine congrArg _ (sum_congr rfl fun other hother => ?_)
      rw [update_of_ne (ne_of_mem_erase hother)]
    · rw [update_self, ShardLog.eligibleOf_purgeTopic]
      rfl

/-- `shard_handle` changes only the handles. It keeps those there are, and its result is one. -/
theorem shardHandle_ok {partition : UInt32} {s s' : State}
    (h : cfg.shardHandle tenant topic partition s = (.ok dir, s')) :
    ∃ shards, s' = { s with shards := shards } ∧
      shards ⟨cfg.storageNamespace topic, partition⟩ = some dir ∧
      ∀ key d, s.shards key = some d → shards key = some d := by
  rw [Config.shardHandle_eq] at h
  split at h
  · cases h
  · split at h
    · cases h
    · next d hd =>
      cases h
      refine ⟨_, rfl, update_self .., fun key d hold => ?_⟩
      rw [update_apply]
      split
      · next hkey =>
        rw [← hkey, hold] at hd
        exact hd.symm
      · exact hold

theorem purgePartitions_ok {partitions : List Nat} {deleted n : Nat} {s s' : State}
    (h : cfg.purgePartitions tenant topic olderThanMs partitions deleted s = (.ok n, s')) :
    ∃ dirs count, PurgedIn topic (Config.eligible olderThanMs) dirs s.disk s'.disk count ∧
      n = deleted + count ∧
      (∀ dir, dir ∈ dirs ↔ ∃ p ∈ partitions,
        s'.shards ⟨cfg.storageNamespace topic, UInt32.ofNat p⟩ = some dir) ∧
      ∀ key d, s.shards key = some d → s'.shards key = some d := by
  induction partitions generalizing deleted s with
  | nil =>
    cases h
    exact ⟨∅, 0, ⟨fun dir => by simp, by simp⟩, rfl, by simp, fun _ _ hold => hold⟩
  | cons partition partitions ih =>
    obtain ⟨dir, s₁, hhandle, hrest⟩ := Prog.bind_eq_ok h
    obtain ⟨shards, rfl, hdir, hold⟩ := shardHandle_ok hhandle
    obtain ⟨dirs, count, hpurged, hn, hdirs, hkept⟩ := ih hrest
    have hcount := congrArg (fun r => deleted + (r.1 + count))
      ((s.disk dir).purgeTopic_eq topic (Config.eligible olderThanMs))
    refine ⟨insert dir dirs, _, hpurged.insert, ?_, fun d => ?_,
      fun key d hd => hkept key d (hold key d hd)⟩
    · exact (hn.trans (Nat.add_assoc ..)).trans hcount
    · rw [mem_insert, hdirs, exists_mem_cons_iff, hkept _ _ hdir, Option.some_inj, eq_comm]

/-- **Topic paging is exact.** The calls are at most one more than the records, and the logs of the
topic are those behind the handles of its partitions. -/
theorem topic_paging_exact (log : ShardLog) (topic : String) {limit : Nat → Nat}
    (hlimit : ∀ n, 0 < limit n) :
    (∃ all, log.pageThrough topic limit (log.records.length + 1) 0 = some all ∧
      (all.Pairwise fun x y => x.1 < y.1) ∧
      ∀ x, x ∈ all ↔ log.records[x.1]? = some x.2 ∧ x.1 ∉ log.removed ∧ x.2.1.topic = topic) ∧
    (¬isDlqTopic topic → ∀ (cfg : Config) tenant olderThanMs s,
      cfg.purgeDlqTopic tenant topic olderThanMs s = (.ok 0, s)) ∧
    ∀ (cfg : Config) tenant olderThanMs s n s', isDlqTopic topic →
      cfg.purgeDlqTopic tenant topic olderThanMs s = (.ok n, s') →
      ∃ dirs : Finset LogDir,
        (∀ dir, dir ∈ dirs ↔ ∃ p < cfg.partitions,
          s'.shards ⟨cfg.storageNamespace topic, UInt32.ofNat p⟩ = some dir) ∧
        (∀ dir ∉ dirs, s'.disk dir = s.disk dir) ∧
        (∀ dir ∈ dirs, ∀ x, x ∈ (s'.disk dir).readable 0 ↔ x ∈ (s.disk dir).readable 0 ∧
          ¬(x.2.1.topic = topic ∧ Config.eligible olderThanMs x.2)) ∧
        n = ∑ dir ∈ dirs, ((s.disk dir).eligibleOf topic (Config.eligible olderThanMs)).length := by
  refine ⟨?_, fun hother cfg tenant olderThanMs s => ?_, ?_⟩
  · refine ⟨_, ShardLog.pageThrough_eq hlimit (Nat.lt_succ_of_le (ShardLog.topicFrom_length_le 0)),
      log.topicFrom_sorted topic 0, fun x => ?_⟩
    simp [ShardLog.mem_topicFrom, and_assoc]
  · rw [Config.purgeDlqTopic, if_neg hother]
    rfl
  · intro cfg tenant olderThanMs s n s' hdlq h
    rw [Config.purgeDlqTopic, if_pos hdlq] at h
    obtain ⟨dirs, count, hpurged, hn, hdirs, -⟩ := purgePartitions_ok h
    refine ⟨dirs, by simpa using hdirs, fun dir hdir => ?_, fun dir hdir x => ?_, ?_⟩
    · rw [hpurged.logs, if_neg hdir]
    · rw [hpurged.logs, if_pos hdir, ShardLog.readable_purgeTopic]
    · rw [hn, Nat.zero_add, hpurged.counted]

/-- A log that two topics share, with a purged message, under the only handle of a broker. -/
def sharedLog : ShardLog :=
  ⟨["a.__dlq", "b", "a.__dlq"].map fun topic => stamped "t" topic none (plainRecord 0, []), [0], 3⟩

theorem sharedLog_paging_exact :
    (∃ all, sharedLog.pageThrough "a.__dlq" (fun _ => 1) 4 0 = some all ∧
      ∀ x, x ∈ all → x.2.1.topic = "a.__dlq") ∧
    ∃ s' dir, Config.purgeDlqTopic ⟨true, 1, 1⟩ "t" "a.__dlq" none
        { State.fresh with disk := fun _ => sharedLog } = (.ok 1, s') ∧
      s'.shards ⟨Config.storageNamespace ⟨true, 1, 1⟩ "a.__dlq", 0⟩ = some dir ∧
      ∀ x ∈ (s'.disk dir).readable 0, x.2.1.topic ≠ "a.__dlq" := by
  obtain ⟨⟨all, hall, -, hmem⟩, -, hpurge⟩ :=
    @topic_paging_exact sharedLog "a.__dlq" (fun _ => 1) fun _ => Nat.one_pos
  obtain ⟨dirs, hdirs, -, hleft, -⟩ := hpurge ⟨true, 1, 1⟩ "t" none
    { State.fresh with disk := fun _ => sharedLog } 1 _ (by decide +kernel) rfl
  refine ⟨⟨all, hall, fun x hx => ((hmem x).mp hx).2.2⟩, _, _, rfl, rfl, fun x hx htopic => ?_⟩
  exact ((hleft _ ((hdirs _).mpr ⟨0, by decide, rfl⟩) x).mp hx).2 ⟨htopic, rfl⟩

end Tenants

end BetterMQ
