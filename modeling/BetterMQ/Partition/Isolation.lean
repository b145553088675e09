import BetterMQ.Partition.Tenants
import BetterMQ.Storage.Durability

/-!
# Isolation of tenants

Does a tenant see what the others do? Two runs are compared: one with the operations of all tenants,
and one with those of a single tenant alone. In the shared layout the offsets of its records are
others in the two runs, so there an offset stands for a record of the tenant: the alone run numbers
them, `State.locate` finds the record with a number in the shared log, and `State.number` gives back
the number.

* **`own_results_unaffected`** — as long as the others use other topics, other names for their
  directories and dedup rows, and purge only records of their own, the tenant's results are the
  same in both runs;
* **`equal_topics_leak`** — with equal topic names they are not, in either layout.

`Sim` relates the states of the two runs: the alone run has the views of the logs. An operation of
the tenant leads from related states to related states with the same result (`exec_own`), an
operation of another leaves the alone state as it is (`exec_other`).
-/

namespace BetterMQ

open Function List Prog Select ShardLog

namespace Tenants

/-! ## Own records and their numbers -/

/-- The records of the tenant's topics. -/
def seen (mine : String → Bool) (item : Item) : Bool := mine item.1.topic

section

variable (cfg : Config) (mine : String → Bool) (s : State) (partition : UInt32)

/-- The number of a record among the tenant's own, in the shared layout. -/
def State.number (offset : Nat) : Nat :=
  if cfg.physical then Select.rank (seen mine) (s.disk (.physical partition)).records offset
  else offset

/-- The offset of the tenant's record with a number, in the shared layout. -/
def State.locate (r : Nat) : Nat :=
  if cfg.physical then Select.place (seen mine) (s.disk (.physical partition)).records r else r

end

section

variable (f : UInt32 → Nat → Nat)

def Op.locate : Op → Op
  | .readMessage topic partition offset => .readMessage topic partition (f partition offset)
  | .listFrom topic partition start limit => .listFrom topic partition (f partition start) limit
  | .purgeMessage topic partition offset => .purgeMessage topic partition (f partition offset)
  | .purgeDlqMessage topic partition offset => .purgeDlqMessage topic partition (f partition offset)
  | op => op

def numberMessage (m : StoredMessage) : StoredMessage :=
  { m with offset := f m.partition m.offset }

def Result.number : Result → Result
  | .published partition offset duplicate => .published partition (f partition offset) duplicate
  | .message m => .message (numberMessage f m)
  | .messages ms => .messages (ms.map (numberMessage f))
  | result => result

end

/-! ## The two runs -/

inductive Event where
  | restart
  | call (tenant : String) (op : Op)

/-- A broker, and what the tenant has been answered so far. -/
structure Session where
  broker : State
  answers : List (Except Error Result)

def Session.fresh : Session := ⟨.fresh, []⟩

/-- A step of the run with all tenants. -/
def step (cfg : Config) (own : String) (mine : String → Bool) (s : Session) :
    Event → Option Session
  | .restart => some { s with broker := s.broker.restart }
  | .call tenant op =>
    if tenant = own then
      let outcome := (op.locate (s.broker.locate cfg mine)).exec cfg own s.broker
      some ⟨outcome.2, s.answers ++ [outcome.1.map (Result.number (s.broker.number cfg mine))]⟩
    else some { s with broker := (op.exec cfg tenant s.broker).2 }

/-- A step of the run of one tenant alone. -/
def aloneStep (cfg : Config) (own : String) (s : Session) : Event → Session
  | .restart => { s with broker := s.broker.restart }
  | .call _ op =>
    let outcome := op.exec cfg own s.broker
    ⟨outcome.2, s.answers ++ [outcome.1]⟩

/-- The events of the alone run. -/
def Event.isOwn (own : String) : Event → Bool
  | .restart => true
  | .call tenant _ => tenant = own

/-- No record of the tenant stands where another purges. -/
def PurgesOthers (mine : String → Bool) (s : State) : Op → Prop
  | .purgeMessage _ partition offset | .purgeDlqMessage _ partition offset =>
    ∀ item ∈ (s.disk (.physical partition)).records[offset]?, mine item.1.topic = false
  | _ => True

/-- The dedup row of another's publish is not one of the tenant's. -/
def RowOfOther (own tenant : String) : Op → Prop
  | .publish _ _ (some key) _ =>
    ¬("dedup:" ++ own ++ ":").toList <+: (dedupRow tenant key).toList
  | _ => True

/-- The condition: a tenant uses its own topics; another uses other topics, another directory, other
dedup rows, and does not purge the tenant's records. -/
def Apart (cfg : Config) (own : String) (mine : String → Bool) (s : Session) : Event → Prop
  | .restart => True
  | .call tenant op =>
    if tenant = own then mine op.topic = true
    else mine op.topic = false ∧ (cfg.physical = false → trim tenant ≠ trim own) ∧
      RowOfOther own tenant op ∧ (cfg.physical = true → PurgesOthers mine s.broker op)

/-! ## The relation -/

section Isolation

variable {cfg : Config} {own : String} {mine : String → Bool} {s t : State}

/-- The directory belongs to the shard, and to the tenant or to another. -/
structure DirOf (cfg : Config) (own : String) (isOwn : Bool) (partition : UInt32) (dir : LogDir) :
    Prop where
  shared : cfg.physical = true → dir = .physical partition
  separate : cfg.physical = false →
    ∃ tenant name, dir = .topic tenant name partition ∧ (isOwn = true ↔ tenant = trim own)

/-- The state of the run with all tenants and that of the alone run. -/
structure Sim (cfg : Config) (own : String) (mine : String → Bool) (s t : State) : Prop where
  disk : ∀ dir, t.disk dir = (s.disk dir).view (seen mine)
  removed : ∀ dir, ∀ offset ∈ (s.disk dir).removed, offset < (s.disk dir).records.length
  /-- The per-topic logs have the records of one tenant or of the others. -/
  records : ∀ tenant name partition, ∀ item ∈ (s.disk (.topic tenant name partition)).records,
    (mine item.1.topic = true ↔ tenant = trim own)
  /-- The handles of the tenant's topics are open in both. -/
  handles : cfg.physical = false → ∀ topic partition, mine topic = true →
    t.shards ⟨topic, partition⟩ = s.shards ⟨topic, partition⟩
  shared : cfg.physical = true → ∀ key dir, t.shards key = some dir → dir = .physical key.partition
  dirs : ∀ topic partition dir, s.shards ⟨cfg.storageNamespace topic, partition⟩ = some dir →
    DirOf cfg own (mine topic) partition dir
  dedup : ∀ key, t.dedup (dedupRow own key) = (s.dedup (dedupRow own key)).map fun entry =>
    { entry with offset := s.number cfg mine entry.partition entry.offset }
  entries : cfg.physical = true → ∀ key entry, s.dedup (dedupRow own key) = some entry →
    entry.offset ≤ (s.disk (.physical entry.partition)).records.length

theorem Sim.fresh : Sim cfg own mine .fresh .fresh where
  disk _ := rfl
  removed := nofun
  records _ _ _ item h := absurd h not_mem_nil
  handles _ _ _ _ := rfl
  shared _ _ _ h := by cases h
  dirs _ _ _ h := by cases h
  dedup _ := rfl
  entries _ _ _ h := by cases h

theorem Sim.restart (h : Sim cfg own mine s t) : Sim cfg own mine s.restart t.restart where
  __ := h
  handles _ _ _ _ := rfl
  shared _ _ _ h := by cases h
  dirs _ _ _ h := by cases h

/-! ## Opening handles -/

theorem sanitizePathSegment_eq {segment name : String}
    (h : sanitizePathSegment segment = some name) : name = trim segment := by
  unfold sanitizePathSegment at h
  dsimp only at h
  split at h
  · cases h
  · split at h
    · cases h
    · cases h
      rfl

variable {partition : UInt32} {tenant topic : String} {dir : LogDir} {partitions : List Nat}
  {offset deleted limit start : Nat} {log : ShardLog} {item : Item} {α β : Type}

theorem dirFor_dirOf {isOwn : Bool} (h : cfg.dirFor tenant topic partition = some dir)
    (htenant : cfg.physical = false → (isOwn = true ↔ trim tenant = trim own)) :
    DirOf cfg own isOwn partition dir := by
  unfold Config.dirFor at h
  split at h
  · next hphysical =>
    cases h
    exact ⟨fun _ => rfl, fun hfalse => absurd (hphysical.symm.trans hfalse) Bool.noConfusion⟩
  · next hphysical =>
    split at h
    · next tenant' topic' ht htopic =>
      cases h
      refine ⟨fun htrue => absurd htrue hphysical, fun hfalse => ⟨tenant', topic', rfl, ?_⟩⟩
      rw [sanitizePathSegment_eq ht]
      exact htenant hfalse
    · cases h

section

variable (h : Sim cfg own mine s t)

include h

section

variable (hdir : DirOf cfg own (mine topic) partition dir)

include hdir

theorem Sim.dirs_update :
    ∀ topic' partition' dir', update s.shards ⟨cfg.storageNamespace topic, partition⟩
        (some dir) ⟨cfg.storageNamespace topic', partition'⟩ = some dir' →
      DirOf cfg own (mine topic') partition' dir' := by
  intro topic' partition' dir' hget
  by_cases hkey : (⟨cfg.storageNamespace topic', partition'⟩ : ShardKey)
      = ⟨cfg.storageNamespace topic, partition⟩
  · rw [hkey, update_self] at hget
    cases hget
    obtain ⟨hns, rfl⟩ := ShardKey.mk.inj hkey
    refine ⟨hdir.shared, fun hfalse => ?_⟩
    -- in the per-topic layout the namespace is the topic
    rw [cfg.storageNamespace_topic hfalse, cfg.storageNamespace_topic hfalse] at hns
    rw [hns]
    exact hdir.separate hfalse
  · rw [update_of_ne hkey] at hget
    exact h.dirs topic' partition' dir' hget

/-- The handle of a topic is opened in both runs, or that of another topic in one. -/
theorem Sim.openHandle :
    Sim cfg own mine
      { s with shards := update s.shards ⟨cfg.storageNamespace topic, partition⟩ (some dir) }
      (if mine topic then
        { t with shards := update t.shards ⟨cfg.storageNamespace topic, partition⟩ (some dir) }
      else t) := by
  have hdirs := h.dirs_update hdir
  split
  · refine { h with handles := ?_, shared := ?_, dirs := hdirs }
    · intro hfalse topic' partition' hmine
      show update t.shards _ _ _ = update s.shards _ _ _
      rw [update_apply, update_apply, h.handles hfalse topic' partition' hmine]
    · intro hphysical
      refine (forall_update_iff t.shards fun key dir? =>
        ∀ dir, dir? = some dir → dir = .physical key.partition).mpr ⟨?_, fun key _ => ?_⟩
      · rintro _ ⟨⟩
        exact hdir.shared hphysical
      · exact h.shared hphysical key
  · next htopic =>
    refine { h with handles := ?_, dirs := hdirs }
    -- the key is not one of the tenant's topics
    intro hfalse topic' partition' hmine
    show t.shards _ = update s.shards _ _ _
    rw [update_of_ne, h.handles hfalse topic' partition' hmine]
    intro hkey
    rw [(ShardKey.mk.inj hkey).1, Config.storageNamespace_topic hfalse] at hmine
    exact htopic hmine

end

/-- The handle found or made for a topic. -/
theorem Sim.dirOf_handle
    (hdir : (s.shards ⟨cfg.storageNamespace topic, partition⟩).or
      (cfg.dirFor tenant topic partition) = some dir)
    (htenant : cfg.physical = false → (mine topic = true ↔ trim tenant = trim own)) :
    DirOf cfg own (mine topic) partition dir := by
  rcases Option.or_eq_some_iff.mp hdir with hopen | ⟨-, hnew⟩
  · exact h.dirs topic partition dir hopen
  · exact dirFor_dirOf hnew htenant

theorem shardHandle_own {topic : String} (htopic : mine topic = true) (partition : UInt32) :
    Related (fun s' t' => Sim cfg own mine s' t' ∧ s'.disk = s.disk)
      (fun dir dir' => dir = dir' ∧ DirOf cfg own true partition dir)
      (cfg.shardHandle own topic partition) (cfg.shardHandle own topic partition) s t := by
  -- both runs find or make the same handle
  have hsame : (t.shards ⟨cfg.storageNamespace topic, partition⟩).or
        (cfg.dirFor own topic partition)
      = (s.shards ⟨cfg.storageNamespace topic, partition⟩).or (cfg.dirFor own topic partition) := by
    cases hphysical : cfg.physical with
    | true =>
      have hshard : ∀ {dir? : Option LogDir}, (∀ dir, dir? = some dir → dir = .physical partition) →
          dir?.or (cfg.dirFor own topic partition) = some (.physical partition) := by
        intro dir? hdir
        cases dir? with
        | none => rw [Option.none_or, Config.dirFor, if_pos hphysical]
        | some dir => rw [Option.some_or, hdir dir rfl]
      rw [hshard (h.shared hphysical ⟨_, partition⟩),
        hshard fun dir hdir => (h.dirs topic partition dir hdir).shared hphysical]
    | false =>
      rw [Config.storageNamespace_topic hphysical, h.handles hphysical topic partition htopic]
  unfold Related
  rw [Config.shardHandle_eq, Config.shardHandle_eq, hsame]
  split
  · exact ⟨⟨h, rfl⟩, rfl⟩
  · split
    · exact ⟨⟨h, rfl⟩, rfl⟩
    · next dir hdir =>
      have hdirOf := h.dirOf_handle hdir fun _ => ⟨fun _ => rfl, fun _ => htopic⟩
      have hsim := h.openHandle hdirOf
      rw [if_pos htopic] at hsim
      exact ⟨⟨hsim, rfl⟩, rfl, htopic ▸ hdirOf⟩

theorem shardHandle_other (htopic : mine topic = false)
    (htenant : cfg.physical = false → trim tenant ≠ trim own) (partition : UInt32) :
    Sim cfg own mine (cfg.shardHandle tenant topic partition s).2 t ∧
      (cfg.shardHandle tenant topic partition s).2.disk = s.disk ∧
      ∀ dir, (cfg.shardHandle tenant topic partition s).1 = .ok dir →
        DirOf cfg own false partition dir := by
  rw [Config.shardHandle_eq]
  split
  · exact ⟨h, rfl, nofun⟩
  · split
    · exact ⟨h, rfl, nofun⟩
    · next dir hdir =>
      have hdirOf := h.dirOf_handle hdir fun hfalse => by
        rw [htopic]
        exact ⟨Bool.noConfusion, fun heq => absurd heq (htenant hfalse)⟩
      have hsim := h.openHandle hdirOf
      rw [htopic] at hsim
      refine ⟨hsim, rfl, fun dir' hok => ?_⟩
      cases hok
      exact htopic ▸ hdirOf

end

/-! ## Changing a log -/

theorem setLog_self (t : State) (dir : LogDir) : t.setLog dir (t.disk dir) = t := by
  unfold State.setLog
  rw [update_eq_self]

theorem number_setLog (hext : (s.disk dir).records <+: log.records)
    (hle : cfg.physical = true → offset ≤ (s.disk (.physical partition)).records.length) :
    (s.setLog dir log).number cfg mine partition offset = s.number cfg mine partition offset := by
  unfold State.number
  split
  · next hphysical =>
    show Select.rank _ (update s.disk dir log (.physical partition)).records offset = _
    by_cases hdir : (LogDir.physical partition) = dir
    · subst hdir
      obtain ⟨rest, hrest⟩ := hext
      rw [update_self, ← hrest, rank_append _ (hle hphysical)]
    · rw [update_of_ne hdir]
  · rfl

theorem Sim.setLog (h : Sim cfg own mine s t) (hext : (s.disk dir).records <+: log.records)
    (hremoved : ∀ offset ∈ log.removed, offset < log.records.length)
    (hrecords : ∀ tenant name partition, dir = .topic tenant name partition →
      ∀ item ∈ log.records, (mine item.1.topic = true ↔ tenant = trim own)) :
    Sim cfg own mine (s.setLog dir log) (t.setLog dir (log.view (seen mine))) where
  disk dir' := by
    show update t.disk dir _ dir' = (update s.disk dir log dir').view _
    rw [update_apply, update_apply]
    split
    · rfl
    · exact h.disk dir'
  removed := (forall_update_iff s.disk fun _ log =>
    ∀ offset ∈ log.removed, offset < log.records.length).mpr
      ⟨hremoved, fun dir' _ => h.removed dir'⟩
  records tenant name partition := by
    show ∀ item ∈ (update s.disk dir log (.topic tenant name partition)).records, _
    rw [update_apply]
    split
    · next hdir => exact hrecords tenant name partition hdir.symm
    · exact h.records tenant name partition
  __ := h
  dedup key := by
    show t.dedup (dedupRow own key) = (s.dedup (dedupRow own key)).map _
    rw [h.dedup key]
    cases hentry : s.dedup (dedupRow own key) with
    | none => rfl
    | some entry =>
      rw [Option.map_some, Option.map_some,
        number_setLog hext fun hphysical => h.entries hphysical key entry hentry]
  entries hphysical key entry hentry := by
    have hle := h.entries hphysical key entry hentry
    show _ ≤ (update s.disk dir log (.physical entry.partition)).records.length
    by_cases hdir : LogDir.physical entry.partition = dir
    · rw [hdir, update_self]
      rw [hdir] at hle
      exact hle.trans hext.length_le
    · rw [update_of_ne hdir]
      exact hle

theorem Sim.setRemoved (h : Sim cfg own mine s t) (dir : LogDir) (log : ShardLog)
    (hrecords : log.records = (s.disk dir).records)
    (hremoved : ∀ offset ∈ log.removed, offset < log.records.length) :
    Sim cfg own mine (s.setLog dir log) (t.setLog dir (log.view (seen mine))) := by
  refine h.setLog (hrecords ▸ prefix_refl _) hremoved ?_
  rintro tenant name partition rfl item hitem
  rw [hrecords] at hitem
  exact h.records tenant name partition item hitem

/-! ## Operations of the tenant -/

section Own

variable {partition : UInt32} {dir : LogDir}

section

variable (h : Sim cfg own mine s t)

include h

/-- In a directory of the tenant in the per-topic layout every record is its own. -/
theorem Sim.all_seen (hphysical : cfg.physical = false) (hdir : DirOf cfg own true partition dir) :
    ∀ item ∈ (s.disk dir).records, seen mine item := by
  obtain ⟨tenant, name, rfl, htenant⟩ := hdir.separate hphysical
  intro item hitem
  exact (h.records tenant name partition item hitem).mpr (htenant.mp rfl)

theorem Sim.locate_eq (hdir : DirOf cfg own true partition dir) (r : Nat) :
    s.locate cfg mine partition r = Select.place (seen mine) (s.disk dir).records r := by
  unfold State.locate
  split
  · next hphysical => rw [hdir.shared hphysical]
  · next hphysical =>
    rw [place_of_all (h.all_seen (Bool.not_eq_true _ ▸ hphysical) hdir)]

theorem Sim.number_eq (hdir : DirOf cfg own true partition dir)
    (hle : offset ≤ (s.disk dir).records.length) :
    s.number cfg mine partition offset = Select.rank (seen mine) (s.disk dir).records offset := by
  unfold State.number
  split
  · next hphysical => rw [hdir.shared hphysical]
  · next hphysical =>
    rw [rank_of_all (h.all_seen (Bool.not_eq_true _ ▸ hphysical) hdir) hle]

end

/-- The relation between answers. -/
def SameResult (cfg : Config) (mine : String → Bool) (s : State) (r r' : Result) : Prop :=
  r.number (s.number cfg mine) = r'

variable {topic : String}

theorem seen_of_topic (htopic : mine topic = true) (item : Item) (hitem : item.1.topic = topic) :
    seen mine item := by
  show mine item.1.topic = true
  rw [hitem]
  exact htopic

theorem readMessage_own (h : Sim cfg own mine s t) (htopic : mine topic = true) (offset : Nat) :
    Related (Sim cfg own mine) (SameResult cfg mine s)
      (cfg.readMessage own topic partition (s.locate cfg mine partition offset))
      (cfg.readMessage own topic partition offset) s t := by
  refine Related.bind (shardHandle_own h htopic partition) (fun _ _ h => h.1) ?_
  rintro dir _ s' t' - - ⟨rfl, hdir⟩ ⟨hsim, hdisk⟩
  refine Related.get ?_
  have hview := readMessage_view (s.disk dir) (seen_of_topic htopic) offset
  rw [hsim.disk dir, hdisk, h.locate_eq hdir, hview]
  cases hread : (s.disk dir).readMessage topic
      (Select.place (seen mine) (s.disk dir).records offset) with
  | none => exact Related.fail _ hsim
  | some x =>
    refine Related.pure hsim ?_
    obtain ⟨hplace, hget, -⟩ := readMessage_eq_some_iff.mp hread
    rw [← hplace] at hget
    have hlt := (List.getElem?_eq_some_iff.mp hget).1
    show Result.message (numberMessage _ _) = Result.message _
    unfold numberMessage message storedMessage
    rw [h.number_eq hdir hlt.le]

section

variable (cfg : Config) (mine : String → Bool) (s : State)

/-- A message of the tenant: in the shared layout it is a record of one of its topics. -/
def Located (m : StoredMessage) : Prop :=
  cfg.physical = true → ∃ item, (s.disk (.physical m.partition)).records[m.offset]? = some item ∧
    seen mine item

/-- The relation between lists of messages. -/
def SameMessages (ms ms' : List StoredMessage) : Prop :=
  ms.map (numberMessage (s.number cfg mine)) = ms' ∧ ∀ m ∈ ms, Located cfg mine s m

end

theorem listFrom_own (h : Sim cfg own mine s t) (htopic : mine topic = true) {r : Nat} (limit : Nat)
    (hstart : ∀ dir, DirOf cfg own true partition dir →
      Select.Corresponds (seen mine) (s.disk dir).records start r) :
    Related (fun s' t' => Sim cfg own mine s' t' ∧ s'.disk = s.disk) (SameMessages cfg mine s)
      (cfg.listTopicMessagesFrom own topic partition start limit)
      (cfg.listTopicMessagesFrom own topic partition r limit) s t := by
  unfold Config.listTopicMessagesFrom
  split
  · exact Related.pure ⟨h, rfl⟩ ⟨rfl, fun m hm => absurd hm not_mem_nil⟩
  · refine Related.bind (shardHandle_own h htopic partition) (fun _ _ h => h) ?_
    rintro dir _ s' t' - - ⟨rfl, hdir⟩ ⟨hsim, hdisk⟩
    refine Related.get (Related.pure ⟨hsim, hdisk⟩ ?_)
    have hview := listTopicMessagesFrom_view (s.disk dir) limit (seen_of_topic htopic)
      (hstart dir hdir)
    rw [hsim.disk dir, hdisk, hview]
    -- every listed record is one of the topic
    have hlisted : ∀ x ∈ (s.disk dir).listTopicMessagesFrom topic start limit,
        (s.disk dir).records[x.1]? = some x.2 ∧ x.2.1.topic = topic := by
      intro x hx
      rw [listTopicMessagesFrom_eq] at hx
      obtain ⟨⟨hget, -⟩, hx⟩ := mem_topicFrom.mp (mem_of_mem_take hx)
      exact ⟨hget, hx⟩
    constructor
    · rw [map_map, map_map]
      refine map_congr_left fun x hx => ?_
      have hlt := (List.getElem?_eq_some_iff.mp (hlisted x hx).1).1
      show numberMessage _ (message partition x) = message partition _
      unfold numberMessage message storedMessage
      rw [h.number_eq hdir hlt.le]
    · intro m hm hphysical
      obtain ⟨x, hx, rfl⟩ := mem_map.mp hm
      obtain ⟨hget, hx⟩ := hlisted x hx
      rw [hdir.shared hphysical] at hget
      exact ⟨x.2, hget, seen_of_topic htopic x.2 hx⟩

theorem corresponds_zero (records : List Item) : Select.Corresponds (seen mine) records 0 0 := by
  have h := Select.corresponds_rank (p := seen mine) records 0
  rwa [rank_zero] at h

theorem listPartitions_own (htopic : mine topic = true) (limit : Nat) {s₀ : State}
    {ms ms' : List StoredMessage} (h : Sim cfg own mine s t)
    (hdisk : s.disk = s₀.disk) (hms : SameMessages cfg mine s₀ ms ms') :
    Related (Sim cfg own mine) (SameMessages cfg mine s₀)
      (cfg.listPartitions own topic limit partitions ms)
      (cfg.listPartitions own topic limit partitions ms') s t := by
  induction partitions generalizing s t ms ms' with
  | nil => exact Related.pure h hms
  | cons partition partitions ih =>
    have hlength : ms'.length = ms.length := by rw [← hms.1, length_map]
    unfold Config.listPartitions
    dsimp only
    rw [hlength]
    split
    · exact Related.pure h hms
    · refine Related.bind (listFrom_own h htopic _ fun dir _ => corresponds_zero _)
        (fun _ _ h => h.1) ?_
      rintro more more' s' t' - - hmore ⟨hsim, hdisk'⟩
      refine ih hsim (hdisk'.trans hdisk) ⟨?_, fun m hm => ?_⟩
      · have hnumber : s.number cfg mine = s₀.number cfg mine := by
          unfold State.number
          rw [hdisk]
        rw [map_append, hms.1, ← hnumber, hmore.1]
      · rcases mem_append.mp hm with hold | hnew
        · exact hms.2 m hold
        · intro hphysical
          rw [← hdisk]
          exact hmore.2 m hnew hphysical

theorem byPlace_number {x y : StoredMessage} (hy : Located cfg mine s y) :
    Config.byPlace x y = Config.byPlace (numberMessage (s.number cfg mine) x)
      (numberMessage (s.number cfg mine) y) := by
  unfold Config.byPlace numberMessage
  by_cases hpart : x.partition = y.partition
  · have hle : (x.offset ≤ y.offset) = (s.number cfg mine x.partition x.offset
        ≤ s.number cfg mine y.partition y.offset) := by
      unfold State.number
      split
      · next hphysical =>
        obtain ⟨item, hget, hitem⟩ := hy hphysical
        rw [hpart]
        exact propext (rank_le_iff x.offset hget hitem).symm
      · rfl
    simp only [hle]
  · have hbeq : (x.partition == y.partition) = false := beq_eq_false_iff_ne.mpr hpart
    rw [hbeq, Bool.false_and, Bool.false_and]

section

variable (h : Sim cfg own mine s t)

include h

theorem listTopic_own (htopic : mine topic = true) (limit : Nat) :
    Related (Sim cfg own mine) (SameMessages cfg mine s)
      (cfg.listTopicMessages own topic limit) (cfg.listTopicMessages own topic limit) s t := by
  have hnil : SameMessages cfg mine s [] [] := ⟨rfl, fun m hm => absurd hm not_mem_nil⟩
  refine Related.bind (listPartitions_own htopic limit h rfl hnil) (fun _ _ h => h) ?_
  rintro ms ms' s' t' - - hms hsim
  refine Related.pure hsim ⟨?_, fun m hm => ?_⟩
  · have hsort := map_mergeSort (f := numberMessage (s.number cfg mine))
      fun x _ y hy => byPlace_number (hms.2 y hy)
    rw [map_take, hsort, hms.1]
  · exact hms.2 m ((mergeSort_perm ms _).subset (mem_of_mem_take hm))

theorem purgeOffset_own (htopic : mine topic = true) (r : Nat) :
    Related (Sim cfg own mine) (· = ·)
      (cfg.purgeOffset own topic partition (s.locate cfg mine partition r))
      (cfg.purgeOffset own topic partition r) s t := by
  refine Related.bind (shardHandle_own h htopic partition) (fun _ _ h => h.1) ?_
  rintro dir _ s' t' - - ⟨rfl, hdir⟩ ⟨hsim, hdisk⟩
  refine Related.get ?_
  have hview := purge_view (p := seen mine) (s'.disk dir) r
  rw [h.locate_eq hdir, ← hdisk, hsim.disk dir, hview]
  refine Related.modify (Related.pure ?_ rfl)
  exact hsim.setRemoved dir ((s'.disk dir).purge _).2 (purge_records _ _)
    (purge_removed (hsim.removed dir))

omit h in
theorem purgePartitions_own (htopic : mine topic = true) (olderThanMs : Option Int64)
    (h : Sim cfg own mine s t) :
    Related (Sim cfg own mine) (· = ·)
      (cfg.purgePartitions own topic olderThanMs partitions deleted)
      (cfg.purgePartitions own topic olderThanMs partitions deleted) s t := by
  induction partitions generalizing s t deleted with
  | nil => exact Related.pure h rfl
  | cons partition partitions ih =>
    refine Related.bind (shardHandle_own h htopic _) (fun _ _ h => h.1) ?_
    rintro dir _ s' t' - - ⟨rfl, hdir⟩ ⟨hsim, hdisk⟩
    refine Related.get ?_
    rw [hsim.disk dir, purgeTopic_view (s'.disk dir) (seen_of_topic htopic)]
    refine Related.modify (ih ?_)
    exact hsim.setRemoved dir ((s'.disk dir).purgeTopic topic _).2
      (purgeTopic_records _ _ _) (purgeTopic_removed (hsim.removed dir))

theorem Sim.putDedup (key : String) (entry : DedupEntry) (hle : cfg.physical = true →
      entry.offset ≤ (s.disk (.physical entry.partition)).records.length) :
    Sim cfg own mine (s.putDedup (dedupRow own key) entry) (t.putDedup (dedupRow own key)
      { entry with offset := s.number cfg mine entry.partition entry.offset }) where
  __ := h
  dedup key' := by
    show update t.dedup _ _ (dedupRow own key')
      = (update s.dedup _ _ (dedupRow own key')).map _
    by_cases hrow : dedupRow own key' = dedupRow own key
    · rw [hrow, update_self, update_self]
      rfl
    · rw [update_of_ne hrow, update_of_ne hrow]
      exact h.dedup key'
  entries hphysical key' entry' hentry := by
    change update s.dedup _ _ (dedupRow own key') = some entry' at hentry
    by_cases hrow : dedupRow own key' = dedupRow own key
    · rw [hrow, update_self] at hentry
      cases hentry
      exact hle hphysical
    · rw [update_of_ne hrow] at hentry
      exact h.entries hphysical key' entry' hentry

theorem appendRecord_own (htopic : mine topic = true) (partition : UInt32) (key : Option String)
    (item : Item) :
    Related (Sim cfg own mine) (SameResult cfg mine s)
      (cfg.appendRecord own topic partition key item)
      (cfg.appendRecord own topic partition key item) s t := by
  refine Related.bind (shardHandle_own h htopic partition) (fun _ _ h => h.1) ?_
  rintro dir _ s' t' - - ⟨rfl, hdir⟩ ⟨hsim, hdisk⟩
  refine Related.get (Related.modify ?_)
  set record := stamped own topic key item
  have hseen : seen mine record := htopic
  have hext : (s'.disk dir).records <+: ((s'.disk dir).append record).records :=
    prefix_append _ _
  -- the alone run appends to the view
  have happend : Sim cfg own mine (s'.setLog dir ((s'.disk dir).append record))
      (t'.setLog dir ((t'.disk dir).append record)) := by
    rw [hsim.disk dir, ← view_append_of_seen hseen (hsim.removed dir)]
    refine hsim.setLog hext (fun offset hoffset => ?_) ?_
    · exact Nat.lt_of_lt_of_le (hsim.removed dir offset hoffset) hext.length_le
    · rintro tenant name partition rfl x hx
      rcases mem_append.mp hx with hold | hnew
      · exact hsim.records tenant name partition x hold
      · cases hphysical : cfg.physical with
        | true => cases hdir.shared hphysical
        | false =>
          obtain ⟨tenant', name', heq, htenant⟩ := hdir.separate hphysical
          cases heq
          rw [mem_singleton.mp hnew]
          exact iff_of_true hseen (htenant.mp rfl)
  -- the new record has the next number
  have hlength : s.number cfg mine partition (s'.disk dir).records.length
      = (t'.disk dir).records.length := by
    rw [h.number_eq hdir (by rw [hdisk]), hsim.disk dir, hdisk, rank_length]
    rfl
  cases key with
  | none =>
    refine Related.pure happend ?_
    show Result.published _ _ _ = Result.published _ _ _
    rw [hlength]
  | some key =>
    refine Related.modify (Related.pure ?_ ?_)
    · have hnumber : (s'.setLog dir ((s'.disk dir).append record)).number cfg mine partition
          (s'.disk dir).records.length = (t'.disk dir).records.length := by
        rw [number_setLog hext, ← hlength]
        · unfold State.number
          rw [hdisk]
        · intro hphysical
          rw [hdir.shared hphysical]
      have hput := happend.putDedup key ⟨record.1.id, (s'.disk dir).records.length, partition⟩
        fun hphysical => by
          rw [hdir.shared hphysical]
          show _ ≤ (update s'.disk _ _ _).records.length
          rw [update_self]
          exact (prefix_append (s'.disk (.physical partition)).records [record]).length_le
      rw [hnumber] at hput
      exact hput
    · show Result.published _ _ _ = Result.published _ _ _
      rw [hlength]

theorem publish_own (htopic : mine topic = true) (key : Option String) (item : Item) :
    Related (Sim cfg own mine) (SameResult cfg mine s)
      (cfg.publish own topic partition key item) (cfg.publish own topic partition key item)
      s t := by
  have hlookup : (key.bind fun key => t.dedup (dedupRow own key))
      = (key.bind fun key => s.dedup (dedupRow own key)).map fun entry =>
        { entry with offset := s.number cfg mine entry.partition entry.offset } := by
    cases key with
    | none => rfl
    | some key => exact h.dedup key
  have happend := appendRecord_own h htopic partition key item
  unfold Related Config.publish
  rw [hlookup]
  cases (key.bind fun key => s.dedup (dedupRow own key)) with
  | some entry => exact ⟨h, rfl⟩
  | none => exact happend

omit h in
theorem related_map {V : α → β → Prop} {p : Prog State Error α} {q : Prog State Error β}
    {f : α → Result} {g : β → Result} (hpq : Related (Sim cfg own mine) V p q s t)
    (hV : ∀ a b, V a b → SameResult cfg mine s (f a) (g b)) :
    Related (Sim cfg own mine) (SameResult cfg mine s) (f <$> p) (g <$> q) s t := by
  refine Related.bind hpq (fun _ _ h => h) ?_
  intro a b s' t' _ _ hab hsim
  exact Related.pure hsim (hV a b hab)

/-- **An operation of the tenant**: the same answer in both runs. -/
theorem exec_own (op : Op) (htopic : mine op.topic = true) :
    Related (Sim cfg own mine) (SameResult cfg mine s)
      ((op.locate (s.locate cfg mine)).exec cfg own) (op.exec cfg own) s t := by
  cases op with
  | publish topic partition key item => exact publish_own h htopic key item
  | readMessage topic partition offset => exact readMessage_own h htopic offset
  | listFrom topic partition start limit =>
    refine related_map ((listFrom_own h htopic limit fun dir hdir => ?_).imp (fun _ _ h => h.1)
      fun _ _ h => h) fun ms ms' hms => congrArg Result.messages hms.1
    rw [h.locate_eq hdir]
    exact corresponds_place _ _
  | listTopic topic limit =>
    exact related_map (listTopic_own h htopic limit) fun ms ms' hms =>
      congrArg Result.messages hms.1
  | purgeMessage topic partition offset =>
    refine related_map (V := (· = ·)) ?_ fun a b hab => congrArg Result.purged hab
    unfold Config.purgeMessage
    split
    · exact Related.pure h rfl
    · exact purgeOffset_own h htopic offset
  | purgeDlqMessage topic partition offset =>
    refine related_map (V := (· = ·)) ?_ fun a b hab => congrArg Result.purged hab
    unfold Config.purgeDlqMessage
    split
    · exact purgeOffset_own h htopic offset
    · exact Related.pure h rfl
  | purgeDlqTopic topic olderThanMs =>
    refine related_map (V := (· = ·)) ?_ fun a b hab => congrArg Result.deleted hab
    unfold Config.purgeDlqTopic
    split
    · exact purgePartitions_own htopic olderThanMs h
    · exact Related.pure h rfl

end

end Own

/-! ## Operations of the others -/

section Other

variable {tenant topic : String} {partition : UInt32}

theorem Sim.bindOther {p : Prog State Error α} {f : α → Prog State Error β}
    (hp : Sim cfg own mine (p s).2 t)
    (hf : ∀ a s', Sim cfg own mine s' t → Sim cfg own mine (f a s').2 t) :
    Sim cfg own mine ((p >>= f) s).2 t := by
  rw [bind_apply]
  rcases heq : p s with ⟨e | a, s'⟩ <;> rw [heq] at hp
  · exact hp
  · exact hf a s' hp

theorem not_seen (h : mine item.1.topic = false) : ¬seen mine item := by
  rw [seen, h]
  exact Bool.false_ne_true

section

variable (h : Sim cfg own mine s t)

include h

theorem Sim.setOther (hdir : DirOf cfg own false partition dir) (log : ShardLog)
    (hext : (s.disk dir).records <+: log.records)
    (hremoved : ∀ offset ∈ log.removed, offset < log.records.length)
    (hnew : ∀ item ∈ log.records, item ∈ (s.disk dir).records ∨ mine item.1.topic = false)
    (hview : log.view (seen mine) = (s.disk dir).view (seen mine)) :
    Sim cfg own mine (s.setLog dir log) t := by
  have hset := h.setLog hext hremoved fun tenant name partition' heq item hitem => by
    rcases hnew item hitem with hold | hother
    · rw [heq] at hold
      exact h.records tenant name partition' item hold
    · cases hphysical : cfg.physical with
      | true =>
        rw [hdir.shared hphysical] at heq
        cases heq
      | false =>
        obtain ⟨tenant', name', heq', htenant⟩ := hdir.separate hphysical
        rw [heq'] at heq
        cases heq
        rw [hother]
        exact htenant
  rwa [hview, ← h.disk dir, setLog_self] at hset

theorem Sim.setOtherRemoved (hdir : DirOf cfg own false partition dir) (log : ShardLog)
    (hrecords : log.records = (s.disk dir).records)
    (hremoved : ∀ offset ∈ log.removed, offset < log.records.length)
    (hview : log.view (seen mine) = (s.disk dir).view (seen mine)) :
    Sim cfg own mine (s.setLog dir log) t :=
  h.setOther hdir log (hrecords ▸ prefix_refl _) hremoved
    (fun _ hitem => .inl (hrecords ▸ hitem)) hview

/-- In a directory of another in the per-topic layout no record is the tenant's. -/
theorem Sim.none_seen (hphysical : cfg.physical = false)
    (hdir : DirOf cfg own false partition dir) :
    ∀ item ∈ (s.disk dir).records, mine item.1.topic = false := by
  obtain ⟨tenant, name, rfl, htenant⟩ := hdir.separate hphysical
  intro item hitem
  rw [← Bool.not_eq_true, h.records tenant name partition item hitem, ← htenant]
  exact Bool.false_ne_true

theorem Sim.putOther {row : String} (entry : DedupEntry) (hrow : ∀ key, dedupRow own key ≠ row) :
    Sim cfg own mine (s.putDedup row entry) t where
  __ := h
  dedup key := by
    show _ = (update s.dedup _ _ (dedupRow own key)).map _
    rw [update_of_ne (hrow key)]
    exact h.dedup key
  entries hphysical key entry' hentry := by
    change update s.dedup _ _ (dedupRow own key) = some entry' at hentry
    rw [update_of_ne (hrow key)] at hentry
    exact h.entries hphysical key entry' hentry

end

/-- Every row of the tenant begins with its name. -/
theorem dedupRow_ne {own tenant key : String}
    (h : ¬("dedup:" ++ own ++ ":").toList <+: (dedupRow tenant key).toList) (key' : String) :
    dedupRow own key' ≠ dedupRow tenant key := by
  intro heq
  refine h ⟨key'.toList, ?_⟩
  rw [← heq, ← String.toList_append]
  rfl

section Topic

variable (htopic : mine topic = false) (htenant : cfg.physical = false → trim tenant ≠ trim own)

include htopic htenant

section

variable (h : Sim cfg own mine s t)

include h

theorem Sim.bindHandle {f : LogDir → Prog State Error α}
    (hf : ∀ dir s', Sim cfg own mine s' t → s'.disk = s.disk → DirOf cfg own false partition dir →
      Sim cfg own mine (f dir s').2 t) :
    Sim cfg own mine ((cfg.shardHandle tenant topic partition >>= f) s).2 t := by
  obtain ⟨hsim, hdisk, hok⟩ := shardHandle_other h htopic htenant partition
  rw [bind_apply]
  rcases heq : cfg.shardHandle tenant topic partition s with ⟨e | dir, s'⟩
  · rw [heq] at hsim
    exact hsim
  · rw [heq] at hsim hdisk hok
    exact hf dir s' hsim hdisk (hok dir rfl)

theorem publish_other {key : Option String}
    (hrow : RowOfOther own tenant (.publish topic partition key item)) :
    Sim cfg own mine (cfg.publish tenant topic partition key item s).2 t := by
  unfold Config.publish
  split
  · exact h
  refine h.bindHandle htopic htenant fun dir s' hsim _ hdir => ?_
  have happend : Sim cfg own mine
      (s'.setLog dir ((s'.disk dir).append (stamped tenant topic key item))) t := by
    refine hsim.setOther hdir _ (prefix_append _ _) (fun offset hoffset => ?_) ?_
      (view_append_of_not (not_seen htopic))
    · exact Nat.lt_of_lt_of_le (hsim.removed dir offset hoffset) (prefix_append _ _).length_le
    · intro x hx
      rcases mem_snoc.mp hx with hold | rfl
      · exact .inl hold
      · exact .inr htopic
  cases key with
  | none => exact happend
  | some key => exact happend.putOther _ (dedupRow_ne hrow)

theorem purgeOffset_other (hother : cfg.physical = true →
      ∀ item ∈ (s.disk (.physical partition)).records[offset]?, mine item.1.topic = false) :
    Sim cfg own mine (cfg.purgeOffset tenant topic partition offset s).2 t := by
  refine h.bindHandle htopic htenant fun dir s' hsim hdisk hdir => ?_
  refine hsim.setOtherRemoved hdir ((s'.disk dir).purge offset).2 (purge_records _ _)
    (purge_removed (hsim.removed dir)) ?_
  refine view_purge_of_not fun item hitem => not_seen ?_
  cases hphysical : cfg.physical with
  | true =>
    rw [hdisk, hdir.shared hphysical] at hitem
    exact hother hphysical item hitem
  | false => exact hsim.none_seen hphysical hdir item (mem_of_getElem? hitem)

theorem purgePartitions_other {olderThanMs : Option Int64} :
    Sim cfg own mine (cfg.purgePartitions tenant topic olderThanMs partitions deleted s).2 t := by
  induction partitions generalizing s deleted with
  | nil => exact h
  | cons partition partitions ih =>
    refine h.bindHandle htopic htenant fun dir s' hsim hdisk hdir => ih ?_
    refine hsim.setOtherRemoved hdir ((s'.disk dir).purgeTopic topic (Config.eligible _)).2
      (purgeTopic_records _ _ _) (purgeTopic_removed (hsim.removed dir)) ?_
    refine view_purgeTopic_of_not _ (fun item hitem => not_seen ?_) _
    rw [hitem]
    exact htopic

theorem listFrom_other :
    Sim cfg own mine (cfg.listTopicMessagesFrom tenant topic partition start limit s).2 t := by
  unfold Config.listTopicMessagesFrom
  split
  · exact h
  · exact h.bindHandle htopic htenant fun dir s' hsim _ _ => hsim

theorem listPartitions_other {ms : List StoredMessage} :
    Sim cfg own mine (cfg.listPartitions tenant topic limit partitions ms s).2 t := by
  induction partitions generalizing s ms with
  | nil => exact h
  | cons partition partitions ih =>
    unfold Config.listPartitions
    dsimp only
    split
    · exact h
    · exact Sim.bindOther (listFrom_other htopic htenant h) fun more s' hsim => ih hsim

end

end Topic

/-- **An operation of another** changes nothing for the tenant. -/
theorem exec_other (h : Sim cfg own mine s t) {op : Op} (htopic : mine op.topic = false)
    (htenant : cfg.physical = false → trim tenant ≠ trim own) (hrow : RowOfOther own tenant op)
    (hpurges : cfg.physical = true → PurgesOthers mine s op) :
    Sim cfg own mine (op.exec cfg tenant s).2 t := by
  cases op with
  | publish topic partition key item => exact publish_other htopic htenant h hrow
  | readMessage topic partition offset =>
    refine h.bindHandle htopic htenant fun dir s' hsim _ _ => ?_
    refine Sim.bindOther hsim fun now s'' hsim => ?_
    cases (now.disk dir).readMessage topic offset <;> exact hsim
  | listFrom topic partition start limit =>
    exact Sim.bindOther (listFrom_other htopic htenant h) fun _ _ hsim => hsim
  | listTopic topic limit =>
    refine Sim.bindOther (Sim.bindOther (listPartitions_other htopic htenant h) ?_) ?_
    · exact fun _ _ hsim => hsim
    · exact fun _ _ hsim => hsim
  | purgeMessage topic partition offset =>
    refine Sim.bindOther ?_ fun _ _ hsim => hsim
    unfold Config.purgeMessage
    split
    · exact h
    · exact purgeOffset_other htopic htenant h hpurges
  | purgeDlqMessage topic partition offset =>
    refine Sim.bindOther ?_ fun _ _ hsim => hsim
    unfold Config.purgeDlqMessage
    split
    · exact purgeOffset_other htopic htenant h hpurges
    · exact h
  | purgeDlqTopic topic olderThanMs =>
    refine Sim.bindOther ?_ fun _ _ hsim => hsim
    unfold Config.purgeDlqTopic
    split
    · exact purgePartitions_other htopic htenant h
    · exact h

end Other

/-! ## Whole runs -/

/-- The two runs, from related states. -/
theorem answers_of_sim {events : List Event} {x y z : Session}
    (hrun : Run (step cfg own mine) (Apart cfg own mine) x events z)
    (hsim : Sim cfg own mine x.broker y.broker) (hanswers : x.answers = y.answers) :
    z.answers = ((events.filter (Event.isOwn own)).foldl (aloneStep cfg own) y).answers := by
  induction hrun generalizing y with
  | nil => exact hanswers
  | @cons x x₁ z event events hapart hstep _ ih =>
    cases event with
    | restart =>
      cases hstep
      exact ih hsim.restart hanswers
    | call tenant op =>
      rw [step] at hstep
      rw [Apart] at hapart
      by_cases htenant : tenant = own
      · rw [if_pos htenant] at hstep hapart
        cases hstep
        obtain ⟨hsim', hagree⟩ := exec_own hsim op hapart
        have hown : Event.isOwn own (.call tenant op) = true := decide_eq_true htenant
        rw [filter_cons_of_pos hown]
        refine ih hsim' ?_
        show x.answers ++ [_] = y.answers ++ [_]
        rw [hanswers, Agree.map_eq hagree]
      · rw [if_neg htenant] at hstep hapart
        cases hstep
        obtain ⟨htopic, hname, hrow, hpurges⟩ := hapart
        rw [filter_cons_of_neg (by rwa [Event.isOwn, decide_eq_true_eq])]
        exact ih (exec_other hsim htopic hname hrow hpurges) hanswers

end Isolation

/-- **Isolation**: in every run in which the others keep to other topics, directories and dedup rows
and purge no record of the tenant, all answers to the tenant are those of the run in which the
others did nothing. -/
theorem own_results_unaffected {cfg : Config} {own : String} {mine : String → Bool}
    {events : List Event} {s : Session}
    (h : Run (step cfg own mine) (Apart cfg own mine) .fresh events s) :
    s.answers
      = ((events.filter (Event.isOwn own)).foldl (aloneStep cfg own) .fresh).answers :=
  answers_of_sim h .fresh rfl

instance (mine : String → Bool) (s : State) (op : Op) : Decidable (PurgesOthers mine s op) := by
  cases op <;> unfold PurgesOthers <;> infer_instance

instance (own tenant : String) (op : Op) : Decidable (RowOfOther own tenant op) := by
  unfold RowOfOther
  split <;> infer_instance

instance (cfg : Config) (own : String) (mine : String → Bool) (s : Session) :
    (event : Event) → Decidable (Apart cfg own mine s event)
  | .restart => .isTrue trivial
  | .call tenant _ => inferInstanceAs (Decidable (if tenant = own then _ else _))

/-- Tenant `b` uses a topic of its own, and purges there. -/
def ownTopics : List Event :=
  [.call "a" (.publish "orders" 0 none (plainRecord 1, [])),
    .call "b" (.publish "refunds" 0 (some "once") (plainRecord 2, [])), .restart,
    .call "a" (.publish "orders" 0 (some "once") (plainRecord 3, [])),
    .call "b" (.purgeMessage "refunds" 0 1), .call "a" (.listFrom "orders" 0 0 10)]

theorem ownTopics_unaffected :
    ∃ s, Run (step ⟨true, 8, 1⟩ "a" (· == "orders")) (Apart ⟨true, 8, 1⟩ "a" (· == "orders"))
        .fresh ownTopics s ∧
      s.answers = ((ownTopics.filter (Event.isOwn "a")).foldl
        (aloneStep ⟨true, 8, 1⟩ "a") .fresh).answers := by
  exact exists_and_of (by decide +kernel) fun s hrun => own_results_unaffected hrun

/-- Tenant `b` publishes to a topic, tenant `a` lists the topic of the same name. -/
def equalTopics : List Event :=
  [.call "b" (.publish "orders" 0 none (plainRecord 1, [])), .call "a" (.listFrom "orders" 0 0 10)]

/-- What tenant `a` is answered, with tenant `b` and without. -/
def answersOf (physical : Bool) : Option (List (Except Error Result)) :=
  (equalTopics.foldlM (step ⟨physical, 8, 1⟩ "a" (· == "orders")) .fresh).map Session.answers

def aloneAnswersOf (physical : Bool) : List (Except Error Result) :=
  ((equalTopics.filter (Event.isOwn "a")).foldl (aloneStep ⟨physical, 8, 1⟩ "a") .fresh).answers

/-- **Equal topic names**: tenant `a` is given the message of tenant `b`, in the per-topic layout
through the open handle, in the shared layout through the filter by topic. -/
theorem equal_topics_leak :
    answersOf false = some [.ok (.messages
        [storedMessage { plainRecord 1 with tenantId := "b" } [] 0 0])] ∧
      aloneAnswersOf false = [.ok (.messages [])] ∧
      answersOf true = some [.ok (.messages
        [storedMessage { plainRecord 1 with tenantId := "b" } [] 0 0])] ∧
      aloneAnswersOf true = [.ok (.messages [])] := by
  decide +kernel

end Tenants

end BetterMQ
