import BetterMQ.Lib.Slots
import BetterMQ.Partition.Batch

/-!
# What preparing a batch guarantees

* **`prepareLoop_ready`** — the groups of a prepared batch hold one record for every request that
  needs one: at most one for a key, none for a key the index has, each in the group of its shard and
  with a slot that awaits it.
-/

namespace BetterMQ

open List Option

/-! ## Groups -/

/-- All records of the groups. -/
def groupRecords (gs : List ShardBatch) : List PreparedRecord := gs.flatMap ShardBatch.records

abbrev PreparedBatch.records (p : PreparedBatch) : List PreparedRecord := groupRecords p.batches

theorem groupRecords_cons (g : ShardBatch) (gs : List ShardBatch) :
    groupRecords (g :: gs) = g.records ++ groupRecords gs := flatMap_cons

variable {gs : List ShardBatch} {record : PreparedRecord}

theorem mem_groupRecords :
    record ∈ groupRecords gs ↔ ∃ g ∈ gs, record ∈ g.records := mem_flatMap

theorem addRecord_perm (key : PreparedShardKey) (record : PreparedRecord) (gs : List ShardBatch) :
    (groupRecords (addRecord key record gs)).Perm (record :: groupRecords gs) := by
  induction gs with
  | nil => exact .refl _
  | cons g gs ih =>
    unfold addRecord
    split
    · rw [groupRecords_cons, append_assoc]
      exact perm_middle
    · exact (ih.append_left g.records).trans perm_middle

/-- The groups of a prepared batch: not empty, each record in the group of its shard and fence. -/
structure GroupsOk (b : Broker) (gs : List ShardBatch) : Prop where
  nonempty : ∀ g ∈ gs, g.records ≠ []
  keyed : ∀ g ∈ gs, ∀ record ∈ g.records, b.preparedKey record = g.key

theorem mem_addRecord {key : PreparedShardKey} {g : ShardBatch} (h : g ∈ addRecord key record gs) :
    g ∈ gs ∨ (g.key = key ∧ ∃ old, g.records = old ++ [record] ∧ (old = [] ∨ ⟨key, old⟩ ∈ gs)) := by
  induction gs with
  | nil =>
    rw [addRecord, mem_singleton] at h
    subst h
    exact .inr ⟨rfl, [], rfl, .inl rfl⟩
  | cons g' gs ih =>
    unfold addRecord at h
    split at h
    · next hkey =>
      rcases mem_cons.mp h with rfl | hmem
      · exact .inr ⟨hkey, g'.records, rfl, .inr (by rw [← hkey]; exact .head _)⟩
      · exact .inl (.tail _ hmem)
    · rcases mem_cons.mp h with rfl | hmem
      · exact .inl (.head _)
      · rcases ih hmem with hold | ⟨hkey, old, hrecords, hold⟩
        · exact .inl (.tail _ hold)
        · exact .inr ⟨hkey, old, hrecords, hold.imp_right (.tail _)⟩

theorem GroupsOk.addRecord {b : Broker} (h : GroupsOk b gs) (record : PreparedRecord) :
    GroupsOk b (addRecord (b.preparedKey record) record gs) where
  nonempty := by
    intro g hg
    rcases mem_addRecord hg with hold | ⟨-, old, hrecords, -⟩
    · exact h.nonempty g hold
    · rw [hrecords]
      simp
  keyed := by
    intro g hg r hr
    rcases mem_addRecord hg with hold | ⟨hkey, old, hrecords, hold⟩
    · exact h.keyed g hold r hr
    · rw [hrecords] at hr
      rcases mem_append.mp hr with hr | hr
      · rcases hold with rfl | hmem
        · cases hr
        · rw [hkey]
          exact h.keyed _ hmem r hr
      · rw [mem_singleton.mp hr, hkey]

/-! ## The loop -/

/-- The ids of the drafts of a batch. -/
def draftIds (requests : Requests) : List Uuid :=
  requests.filterMap fun r => r.2.draft.map (·.header.id)

/-- The keys of records. -/
def recordKeys (records : List PreparedRecord) : List String :=
  records.filterMap (·.header.idempotencyKey)

namespace Broker

/-- A batch of which the requests `done` are prepared. -/
structure Ready (b : Broker) (tenantId : String) (done : Requests) (p : PreparedBatch) : Prop where
  groups : GroupsOk b p.batches
  stamped : ∀ record ∈ p.records,
    record.header.tenantId = tenantId ∧ record.header.topic = record.topic
  unindexed : ∀ key ∈ recordKeys p.records,
    b.dedup (⟨tenantId, key⟩ : ReservationKey).dedupKey = none
  once : (recordKeys p.records).Nodup
  owned : ∀ key ∈ recordKeys p.records, p.owners.lookup key ≠ none
  owners : ∀ key id, p.owners.lookup key = some id →
    ∃ record ∈ p.records, record.header.id = id
  ids : (p.records.map (·.header.id)).Subperm (draftIds done)
  length : p.slots.length = done.length
  slots : ∀ slot ∈ p.slots, (∃ r name, slot = .existing r ∧ b.dedup name = some r.entry) ∨
    ∃ record ∈ p.records, ∃ duplicate topicOverride,
      slot = .awaiting record.header.id duplicate topicOverride
  awaited : ∀ record ∈ p.records, ∃ (j : Nat) (request : Request) (fate : RequestFate),
    p.slots[j]? = some (.awaiting record.header.id false none) ∧
    done[j]? = some (request, fate) ∧ request.idempotencyKey = record.header.idempotencyKey

variable {b : Broker} {tenantId : String} {done : Requests}
  {p p' : PreparedBatch} {request : Request} {fate : RequestFate}

theorem ready_nil (b : Broker) (tenantId : String) : b.Ready tenantId [] ⟨[], [], []⟩ where
  groups := ⟨by simp, by simp⟩
  stamped := by simp [groupRecords]
  unindexed := by simp [groupRecords, recordKeys]
  once := by simp [groupRecords, recordKeys]
  owned := by simp [groupRecords, recordKeys]
  owners := by simp
  ids := nil_subperm
  length := rfl
  slots := by simp
  awaited := by simp [groupRecords]

theorem getElem?_concat_of_some {α : Type} {xs : List α} {i : Nat} {a : α} (x : α)
    (h : xs[i]? = some a) : (xs ++ [x])[i]? = some a :=
  getElem?_of_isPrefix (prefix_append xs [x]) h

theorem Ready.pushSlot (h : b.Ready tenantId done p) {slot : Slot}
    (hslot : (∃ r name, slot = .existing r ∧ b.dedup name = some r.entry) ∨
      ∃ record ∈ p.records, ∃ duplicate topicOverride,
        slot = .awaiting record.header.id duplicate topicOverride) :
    b.Ready tenantId (done ++ [(request, fate)]) { p with slots := p.slots ++ [slot] } where
  __ := h
  ids := by
    refine h.ids.trans (List.Sublist.subperm ?_)
    rw [draftIds, draftIds, filterMap_append]
    exact sublist_append_left _ _
  length := by simp [h.length]
  slots := by
    intro s hs
    rcases mem_snoc.mp hs with hold | rfl
    · exact h.slots s hold
    · exact hslot
  awaited := by
    intro record hrecord
    obtain ⟨j, request', fate', hslot', hdone, hkey⟩ := h.awaited record hrecord
    exact ⟨j, request', fate', getElem?_concat_of_some _ hslot', getElem?_concat_of_some _ hdone,
      hkey⟩

theorem mem_pushRecord {r : PreparedRecord} :
    r ∈ groupRecords (b.pushRecord p record).batches ↔ r = record ∨ r ∈ p.records :=
  (addRecord_perm _ record p.batches).mem_iff.trans mem_cons

theorem recordKeys_pushRecord (b : Broker) (p : PreparedBatch) (record : PreparedRecord) :
    (recordKeys (groupRecords (b.pushRecord p record).batches)).Perm
      (record.header.idempotencyKey.toList ++ recordKeys p.records) := by
  refine ((addRecord_perm _ record p.batches).filterMap _).trans (.of_eq ?_)
  cases hkey : record.header.idempotencyKey <;> simp [recordKeys, hkey]

theorem lookup_pushRecord (b : Broker) (p : PreparedBatch) (record : PreparedRecord)
    (key : String) :
    (b.pushRecord p record).owners.lookup key
      = if record.header.idempotencyKey = some key then some record.header.id
        else p.owners.lookup key := by
  unfold pushRecord
  cases hkey : record.header.idempotencyKey with
  | none => simp
  | some own =>
    by_cases hown : key = own
    · simp [hown]
    · have hne : (key == own) = false := by simp [hown]
      simp [lookup_cons, hne, Ne.symm hown]

theorem Ready.pushRecord (h : b.Ready tenantId done p) {draft : PreparedRecord}
    (hdraft : fate.draft = some draft)
    (hfresh : ∀ key, request.idempotencyKey = some key → p.owners.lookup key = none ∧
      b.dedup (⟨tenantId, key⟩ : ReservationKey).dedupKey = none) :
    b.Ready tenantId (done ++ [(request, fate)])
      (b.pushRecord p (stamp tenantId request.idempotencyKey draft)) := by
  set record := stamp tenantId request.idempotencyKey draft
  have hkeys := recordKeys_pushRecord b p record
  have hnew : ∀ key ∈ recordKeys p.records, request.idempotencyKey ≠ some key :=
    fun key hkey hrequest => h.owned key hkey (hfresh key hrequest).1
  refine ⟨h.groups.addRecord record, ?_, ?_, ?_, ?_, ?_, ?_, ?_, ?_, ?_⟩
  · intro r hr
    rcases mem_pushRecord.mp hr with rfl | hold
    · exact ⟨rfl, rfl⟩
    · exact h.stamped r hold
  · intro key hkey
    rcases mem_append.mp (hkeys.mem_iff.mp hkey) with hown | hold
    · exact (hfresh key (mem_toList.mp hown)).2
    · exact h.unindexed key hold
  · rw [hkeys.nodup_iff, nodup_append]
    refine ⟨?_, h.once, ?_⟩
    · cases record.header.idempotencyKey <;> simp
    · rintro key hown _ hold rfl
      exact hnew key hold (mem_toList.mp hown)
  · intro key hkey
    rw [lookup_pushRecord]
    split
    · simp
    · next hne =>
      rcases mem_append.mp (hkeys.mem_iff.mp hkey) with hown | hold
      · exact absurd (mem_toList.mp hown) hne
      · exact h.owned key hold
  · intro key id hlookup
    rw [lookup_pushRecord] at hlookup
    split at hlookup
    · exact ⟨record, mem_pushRecord.mpr (.inl rfl), some_inj.mp hlookup⟩
    · obtain ⟨r, hr, hid⟩ := h.owners key id hlookup
      exact ⟨r, mem_pushRecord.mpr (.inr hr), hid⟩
  · have hids : draftIds (done ++ [(request, fate)]) = draftIds done ++ [record.header.id] := by
      simp [draftIds, hdraft, record, stamp]
    rw [hids]
    refine (((addRecord_perm _ record p.batches).map _).subperm).trans ?_
    refine List.Subperm.trans ?_ (perm_append_singleton _ _).symm.subperm
    exact (subperm_cons _).mpr h.ids
  · simp [Broker.pushRecord, h.length]
  · intro slot hslot
    rcases mem_append.mp hslot with hold | hown
    · refine (h.slots slot hold).imp id ?_
      rintro ⟨r, hr, hrest⟩
      exact ⟨r, mem_pushRecord.mpr (.inr hr), hrest⟩
    · exact .inr ⟨record, mem_pushRecord.mpr (.inl rfl), false, none, mem_singleton.mp hown⟩
  · intro r hr
    rcases mem_pushRecord.mp hr with rfl | hold
    · refine ⟨done.length, request, fate, ?_, getElem?_concat_length, rfl⟩
      rw [← h.length]
      exact getElem?_concat_length
    · obtain ⟨j, request', fate', hslot, hdone, hkey⟩ := h.awaited r hold
      exact ⟨j, request', fate', getElem?_concat_of_some _ hslot, getElem?_concat_of_some _ hdone,
        hkey⟩

/-- **One request** keeps the batch ready. -/
theorem Ready.prepareOne (h : b.Ready tenantId done p)
    (hone : b.prepareOne tenantId p request fate = some p') :
    b.Ready tenantId (done ++ [(request, fate)]) p' := by
  unfold Broker.prepareOne at hone
  split at hone
  on_goal 2 => cases hone
  split at hone
  · next hkey =>
    obtain ⟨draft, hdraft, rfl⟩ := map_eq_some_iff.mp hone
    rw [← hkey]
    exact h.pushRecord hdraft (by simp [hkey])
  · next key hkey =>
    split at hone
    · next id howner =>
      cases hone
      obtain ⟨record, hrecord, rfl⟩ := h.owners key id howner
      exact h.pushSlot (.inr ⟨record, hrecord, true, some request.topic, rfl⟩)
    · next howner =>
      split at hone
      on_goal 2 => cases hone
      split at hone
      · next entry hentry =>
        cases hone
        exact h.pushSlot (.inl ⟨_, _, rfl, hentry⟩)
      · next hentry =>
        obtain ⟨draft, hdraft, rfl⟩ := map_eq_some_iff.mp hone
        rw [← hkey]
        refine h.pushRecord hdraft ?_
        intro key' hkey'
        rw [hkey, some_inj] at hkey'
        exact hkey' ▸ ⟨howner, hentry⟩

variable {requests : Requests}

/-- **The whole loop**: what it prepared before and what it prepares now are ready together. -/
theorem prepareLoop_ready (h : b.Ready tenantId done p)
    (hloop : b.prepareLoop tenantId p requests = some p') :
    b.Ready tenantId (done ++ requests) p' := by
  induction requests generalizing done p with
  | nil =>
    cases hloop
    rwa [append_nil]
  | cons r requests ih =>
    obtain ⟨p₁, hone, hrest⟩ := bind_eq_some_iff.mp hloop
    have hready := ih (h.prepareOne hone) hrest
    rwa [append_assoc] at hready

theorem preparePublishBatch_ready (h : b.preparePublishBatch tenantId requests = some p) :
    b.Ready tenantId requests p :=
  prepareLoop_ready (ready_nil b tenantId) h

end Broker

end BetterMQ
