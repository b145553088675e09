import BetterMQ.Partition.Life
import BetterMQ.Storage.Durability

/-!
# Idempotent publishing

* **`publish_idempotent`** — concurrent publishes of a key store at most one record and name the
  same one, when no reservation is inserted for a key that was published since its lookup;
* **`publishOnLeader_idempotent`** — the same for calls on a clustered leader, which give their
  reservation up before the quorum, when no reservation is inserted while a record of the key is
  stored outside the index.
-/

namespace BetterMQ

open List Option

namespace Broker

variable {b b₀ b' : Broker} {k : ReservationKey} {event : Event} {life : Life} {a : Action}
  {e : Effect} {c : Call}

/-! ## The property -/

/-- At most one record of the key is stored. -/
def OneRecord (b : Broker) (k : ReservationKey) : Prop :=
  ∀ (shard : ShardKey) (o : Nat) (item : Item) (shard' : ShardKey) (o' : Nat) (item' : Item),
    (b.logs shard).records[o]? = some item → item.1.reservationKey = some k →
    (b.logs shard').records[o']? = some item' → item'.1.reservationKey = some k →
      shard = shard' ∧ o = o'

/-- At most one record of the key is stored, and all successful calls of the key name one. -/
structure Idempotent (b : Broker) (k : ReservationKey) : Prop where
  one_record : b.OneRecord k
  one_response : ∀ c ∈ b.calls, ∀ c' ∈ b.calls, c.key = some k → c'.key = some k →
    ∀ r r', c.phase = .returned r → c'.phase = .returned r' → r.entry = r'.entry

/-- The index names every record stored under the key, and there is at most one. -/
def Indexed (b : Broker) (k : ReservationKey) : Prop :=
  ∃ place : Option (ShardKey × DedupEntry), b.dedup k.dedupKey = place.map Prod.snd ∧
    ∀ shard o item, (b.logs shard).records[o]? = some item → item.1.reservationKey = some k →
      place = some (shard, ⟨item.1.id, o, shard.partition⟩)

/-- No call is running, and the index names the records that are stored under a key. -/
def Idle (b : Broker) : Prop :=
  b.calls = [] ∧ ∀ k : ReservationKey, ':' ∉ k.tenantId.toList → b.Indexed k

theorem fresh_idle (physical : Bool) (fsync : FsyncMode) : (fresh physical fsync).Idle := by
  refine ⟨rfl, fun k _ => ⟨none, rfl, ?_⟩⟩
  intro shard o item hitem
  simp [fresh, DurableLog.empty] at hitem

/-- What the stage of a key says about its records and responses. -/
theorem KeyInv.idempotent (h : KeyInv b k life) : b.Idempotent k where
  one_record := by
    intro shard o item shard' o' item' hitem hkey hitem' hkey'
    have hplace := h.records shard o item hitem hkey
    rw [h.records shard' o' item' hitem' hkey', some_inj, Prod.mk.injEq,
      DedupEntry.mk.injEq] at hplace
    exact ⟨hplace.1.symm, hplace.2.2.1.symm⟩
  one_response := by
    have hentry : ∀ c ∈ b.calls, c.key = some k → ∀ r, c.phase = .returned r →
        life.indexed = some r.entry := by
      intro c hmem hkey r hr
      obtain ⟨i, hi⟩ := mem_iff_getElem?.mp hmem
      have hallow := h.calls i c hi hkey
      rw [hr] at hallow
      obtain ⟨_, _, -, hno⟩ | ⟨shard, entry, rfl, hsettled⟩ := hallow.past id id
      · exact hno.elim
      · exact congrArg some hsettled.symm
    intro c hmem c' hmem' hkey hkey' r r' hr hr'
    have hsame := hentry c hmem hkey r hr
    rw [hentry c' hmem' hkey' r' hr', some_inj] at hsame
    exact hsame.symm

/-! ## Runs -/

/-- What holds between any two steps. -/
structure Inv (b : Broker) : Prop where
  tenants : ∀ c ∈ b.calls, ':' ∉ c.tenantId.toList
  stamped : ∀ c ∈ b.calls, ∀ record, c.phase = .prepared record →
    record.header.reservationKey = c.key
  keys : ∀ k : ReservationKey, ':' ∉ k.tenantId.toList → ∃ life, KeyInv b k life

/-- Tenants have no colon in their names, reservations are inserted for keys of which nothing is
stored outside the index, and the process stays up. -/
def EventOk (b : Broker) : Event → Prop
  | .start _ tenantId _ _ => ':' ∉ tenantId.toList
  | .act i .insertPending =>
    ∀ c ∈ b.calls[i]?, ∀ k ∈ c.key, k ∉ b.pending → b.InsertOk k
  | .act _ _ | .flush _ => True
  | .crash _ => False

theorem Idle.inv (h : b.Idle) : b.Inv := by
  obtain ⟨hcalls, hkeys⟩ := h
  refine ⟨by simp [hcalls], by simp [hcalls], fun k hk => ?_⟩
  obtain ⟨place, hindex, hrecords⟩ := hkeys k hk
  cases place with
  | none => exact ⟨.free, by simp [hcalls], by simp [Life.owner], hindex, hrecords⟩
  | some place =>
    exact ⟨.recorded place.1 place.2, by simp [hcalls], by simp [Life.owner], hindex, hrecords⟩

theorem effect_prepared {record : PreparedRecord} (h : b.effect c a = some e)
    (hphase : e.phase = .prepared record) : record.header.reservationKey = c.key := by
  have hrespond : ∀ r, c.respond r ≠ .prepared record := by
    intro r
    unfold Call.respond
    split <;> nofun
  unfold effect at h
  split at h
  all_goals try (repeat' split at h)
  all_goals cases h
  all_goals first | exact absurd hphase (hrespond _) | cases hphase
  rfl

theorem KeyInv.start (h : KeyInv b k life) (caller : Caller) (tenantId topic : String)
    (key : Option String) :
    KeyInv { b with calls := b.calls ++
      [⟨caller, tenantId, topic, key, if key = none then .reserved else .waiting⟩] } k life where
  calls := by
    intro i c hc hkey
    by_cases hlt : i < b.calls.length
    · rw [getElem?_append_left hlt] at hc
      exact h.calls i c hc hkey
    · have hnot : i ∉ life.owner := by
        intro hi
        obtain ⟨c', hc', -⟩ := h.owner i hi
        exact hlt (List.getElem?_eq_some_iff.mp hc').1
      rw [getElem?_append_right (Nat.le_of_not_lt hlt), getElem?_singleton] at hc
      split at hc
      on_goal 2 => cases hc
      cases hc
      -- a call with a key starts at the head of the loop
      obtain ⟨name, rfl, -⟩ := map_eq_some_iff.mp hkey
      exact Life.allows_bystander hnot trivial
  owner := by
    intro i hi
    obtain ⟨c, hc, hrest⟩ := h.owner i hi
    refine ⟨c, ?_, hrest⟩
    rw [getElem?_append_left (List.getElem?_eq_some_iff.mp hc).1]
    exact hc
  __ := h

theorem KeyInv.flush (h : KeyInv b k life) (shard : ShardKey) :
    KeyInv { b with logs := Function.update b.logs shard (b.logs shard).sync } k life where
  __ := h
  records := by
    intro shard' o item hitem
    refine h.records shard' o item ?_
    by_cases hshard : shard' = shard
    · subst hshard
      simpa using hitem
    · simpa [Function.update_of_ne hshard] using hitem

/-- **One step** keeps every key at a stage. -/
theorem Inv.step (h : b.Inv) (hok : b.EventOk event) (hstep : b.step event = some b') : b'.Inv := by
  cases event with
  | start caller tenantId topic key =>
    cases hstep
    refine ⟨?_, ?_, fun k hk => ?_⟩
    · intro c hc
      rcases mem_snoc.mp hc with hold | rfl
      · exact h.tenants c hold
      · exact hok
    · intro c hc record hphase
      rcases mem_append.mp hc with hold | hnew
      · exact h.stamped c hold record hphase
      · rw [mem_singleton.mp hnew] at hphase
        split_ifs at hphase
    · obtain ⟨life, hlife⟩ := h.keys k hk
      exact ⟨life, hlife.start caller tenantId topic key⟩
  | act i action =>
    obtain ⟨c, hc, hmoved⟩ := bind_eq_some_iff.mp hstep
    obtain ⟨e, heffect, rfl⟩ := map_eq_some_iff.mp hmoved
    have hmem := mem_of_getElem? hc
    refine ⟨?_, ?_, fun k hk => ?_⟩
    · intro c' hc'
      rcases mem_or_eq_of_mem_set hc' with hold | rfl
      · exact h.tenants c' hold
      · exact h.tenants c hmem
    · intro c' hc' record hphase
      rcases mem_or_eq_of_mem_set hc' with hold | rfl
      · exact h.stamped c' hold record hphase
      · show record.header.reservationKey = c.key
        exact effect_prepared heffect hphase
    · obtain ⟨life, hlife⟩ := h.keys k hk
      by_cases hkey : c.key = some k
      · refine hlife.act hc hkey heffect ?_
        rintro rfl hpending
        exact hok c hc k hkey hpending
      · refine ⟨life, hlife.frame hc hkey hk (h.tenants c hmem) ?_⟩
        intro record synced happend
        exact h.stamped c hmem record (effect_append heffect happend)
  | flush shard =>
    simp only [Broker.step] at hstep
    split_ifs at hstep
    · cases hstep
      exact h
    · cases hstep
      refine ⟨h.tenants, h.stamped, fun k hk => ?_⟩
      obtain ⟨life, hlife⟩ := h.keys k hk
      exact ⟨life, hlife.flush shard⟩
  | crash keep => exact hok.elim

theorem Run.keyInv {events : List Event} (hidle : b₀.Idle) (hrun : Run step EventOk b₀ events b)
    (hk : ':' ∉ k.tenantId.toList) : ∃ life, KeyInv b k life := by
  have hinv := Run.invariant Inv (fun _ _ _ h hok hstep => h.step hok hstep) hrun hidle.inv
  exact hinv.keys k hk

instance (b : Broker) (k : ReservationKey) : Decidable (b.InsertOk k) := by
  unfold InsertOk
  infer_instance

instance (b : Broker) (event : Event) : Decidable (b.EventOk event) := by
  cases event with
  | act i action => cases action <;> unfold EventOk <;> infer_instance
  | _ => unfold EventOk; infer_instance

/-! ## Calls on a leader -/

/-- **Idempotent publishing on a leader.** Whatever the calls and the order of their actions, a key
gets at most one record and one answer, as long as reservations are inserted for keys of which
nothing is stored outside the index. -/
theorem publishOnLeader_idempotent {events : List Event} (hidle : b₀.Idle)
    (hrun : Run step EventOk b₀ events b) (hk : ':' ∉ k.tenantId.toList) : b.Idempotent k := by
  obtain ⟨life, hlife⟩ := Run.keyInv hidle hrun hk
  exact hlife.idempotent

/-- The key of the examples. -/
def sampleKey : ReservationKey := ⟨"t", "once"⟩

def sampleCall (caller : Caller) : Event := .start caller "t" "orders" (some "once")

/-- A record with the given id, as `prepare_record` drafts it. -/
def sampleDraft (id : Nat) : PreparedRecord := ⟨"orders", 0, plainRecord id, [UInt8.ofNat id], none⟩

/-- Call `i` looks its key up and does not find it. -/
def missing (i : Nat) : List Event := [.act i .waitPending, .act i (.getDedup true)]

/-- Call `i` reserves its key and appends the record `id`. -/
def appending (i id : Nat) : List Event :=
  [.act i .insertPending, .act i (.prepareRecord (some (sampleDraft id))),
    .act i (.appendBatch .ok)]

/-- Call `i` passes its quorum and commits its entry. -/
def committingSteps (i : Nat) : List Event :=
  [.act i (.replicate true), .act i (.commitDedup true), .act i .releaseCommitted]

/-- The answers of the calls that returned. -/
def responses (b : Broker) : List PublishResponse :=
  b.calls.filterMap fun c =>
    match c.phase with
    | .returned r => some r
    | _ => none

/-- A second call on a clustered leader that comes after the first has committed: one record, and
the second answer is a duplicate of the first. -/
theorem publishOnLeader_second_call_duplicate :
    ∃ b, Run step EventOk (fresh false .group)
        ([sampleCall (.publishOnLeader true), sampleCall (.publishOnLeader true)] ++ missing 0 ++
          appending 0 1 ++ [.act 0 .release] ++ committingSteps 0 ++ missing 1 ++
          [.act 1 (.replicate true)]) b ∧
      (responses b).map (fun r => (r.messageId, r.duplicate)) = [(1, false), (1, true)] ∧
      b.Idempotent sampleKey := by
  exact exists_and₂_of (by decide +kernel) fun b hrun _ =>
    publishOnLeader_idempotent (fresh_idle _ _) hrun (by decide)

/-- A second call reserves the key while the first waits for its quorum: two records of one key,
and two successful answers that name different messages. -/
theorem deferred_dedup_stores_two_records :
    ∃ b, AnyRun step (fresh false .group)
        ([sampleCall (.publishOnLeader true), sampleCall (.publishOnLeader true)] ++ missing 0 ++
          appending 0 1 ++ [.act 0 .release] ++ missing 1 ++ appending 1 2 ++ [.act 1 .release] ++
          committingSteps 0 ++ committingSteps 1) b ∧
      (responses b).map (fun r => (r.messageId, r.offset)) = [(1, 0), (2, 1)] ∧
      ((b.logs ⟨"orders", 0⟩).records.map fun item => item.1.reservationKey)
        = [some sampleKey, some sampleKey] := by
  decide +kernel

/-! ## Plain publishes -/

/-- All calls are plain publishes, and none is in a phase of `publish_on_leader`. -/
def Plain (b : Broker) : Prop :=
  ∀ c ∈ b.calls, c.caller = .publish ∧ c.phase.onLeader = false

/-- Only plain publishes, of tenants without a colon in their names. A reservation is inserted for
a key that the index does not have, and of which no publish failed after its append. -/
def PublishOk (b : Broker) : Event → Prop
  | .start caller tenantId _ _ => caller = .publish ∧ ':' ∉ tenantId.toList
  | .act i .insertPending =>
    ∀ c ∈ b.calls[i]?, ∀ k ∈ c.key, k ∉ b.pending →
      b.dedup k.dedupKey = none ∧
        ∀ c' ∈ b.calls, c'.key = some k → c'.phase.failedStored = false
  | .act _ _ | .flush _ => True
  | .crash _ => False

instance (b : Broker) (event : Event) : Decidable (b.PublishOk event) := by
  cases event with
  | act i action => cases action <;> unfold PublishOk <;> infer_instance
  | _ => unfold PublishOk; infer_instance

theorem effect_onLeader (h : b.effect c a = some e) (hcaller : c.caller = .publish)
    (hphase : c.phase.onLeader = false) : e.phase.onLeader = false := by
  have hrespond : ∀ r, (c.respond r).onLeader = false := by
    intro r
    rw [Call.respond, hcaller]
    rfl
  unfold effect at h
  split at h
  all_goals try (repeat' split at h)
  all_goals cases h
  all_goals first | rfl | exact hrespond _ | simp_all [Phase.onLeader]

theorem Plain.step (h : b.Plain) (hok : b.PublishOk event) (hstep : b.step event = some b') :
    b'.Plain := by
  cases event with
  | start caller tenantId topic key =>
    cases hstep
    intro c hc
    rcases mem_snoc.mp hc with hold | rfl
    · exact h c hold
    · refine ⟨hok.1, ?_⟩
      split <;> rfl
  | act i action =>
    obtain ⟨c, hc, hmoved⟩ := bind_eq_some_iff.mp hstep
    obtain ⟨e, heffect, rfl⟩ := map_eq_some_iff.mp hmoved
    obtain ⟨hcaller, hphase⟩ := h c (mem_of_getElem? hc)
    intro c' hc'
    rcases mem_or_eq_of_mem_set hc' with hold | rfl
    · exact h c' hold
    · exact ⟨hcaller, effect_onLeader heffect hcaller hphase⟩
  | flush shard =>
    simp only [Broker.step] at hstep
    split_ifs at hstep
    all_goals cases hstep
    all_goals exact h
  | crash keep => exact hok.elim

/-- Plain publishes keep their reservation until the index has their record, so the index and the
failed calls are all that an insert has to fear. -/
theorem Plain.eventOk (h : b.Plain) (hok : b.PublishOk event) : b.EventOk event := by
  cases event with
  | start caller tenantId topic key => exact hok.2
  | act i action =>
    cases action with
    | insertPending =>
      intro c hc k hk hpending
      obtain ⟨hindex, hfailed⟩ := hok c hc k hk hpending
      refine ⟨hindex, fun c' hc' hkey' => ?_⟩
      obtain ⟨-, hphase⟩ := h c' hc'
      have hstored := hfailed c' hc' hkey'
      unfold Phase.unrecorded
      split
      · next heq =>
        rw [heq] at hphase
        cases hphase
      · next heq =>
        rw [heq] at hphase
        cases hphase
      · next heq =>
        rw [heq] at hstored
        cases hstored
      · rfl
    | _ => trivial
  | flush shard => trivial
  | crash keep => exact hok.elim

/-- **Idempotent publishing.** Whatever the number of concurrent publishes and the order of their
actions, a key gets at most one record and one answer, as long as no publish of the key completes
between the lookup and the insert of another, and none fails after its append. -/
theorem publish_idempotent {events : List Event} (hidle : b₀.Idle)
    (hrun : Run step PublishOk b₀ events b) (hk : ':' ∉ k.tenantId.toList) : b.Idempotent k := by
  have hplain : b₀.Plain := by
    intro c hc
    rw [hidle.1] at hc
    cases hc
  have hrun' : Run step EventOk b₀ events b :=
    hrun.mono_of_invariant Plain (fun _ _ _ h hok hstep => h.step hok hstep)
      (fun _ _ h hok => h.eventOk hok) hplain
  obtain ⟨life, hlife⟩ := Run.keyInv hidle hrun' hk
  exact hlife.idempotent

/-- Call `i` finishes a plain publish. -/
def finishing (i : Nat) : List Event := [.act i (.writeDedup true), .act i .release]

/-- Two publishes miss the index together; the one that inserts second waits for the first and
answers with its record. -/
theorem publish_race_resolved :
    ∃ b, Run step PublishOk (fresh false .group)
        ([sampleCall .publish, sampleCall .publish] ++ missing 0 ++ missing 1 ++ appending 0 1 ++
          [.act 1 .insertPending] ++ finishing 0 ++ missing 1) b ∧
      (responses b).map (fun r => (r.messageId, r.duplicate)) = [(1, false), (1, true)] ∧
      b.Idempotent sampleKey := by
  exact exists_and₂_of (by decide +kernel) fun b hrun _ =>
    publish_idempotent (fresh_idle _ _) hrun (by decide)

/-- A publish that runs from start to end between the lookup and the insert of another: the key has
two records, and the two answers name different messages. -/
theorem publish_between_lookup_and_insert :
    ∃ b, AnyRun step (fresh false .always)
        ([sampleCall .publish, sampleCall .publish] ++ missing 1 ++ missing 0 ++ appending 0 1 ++
          finishing 0 ++ appending 1 2 ++ finishing 1) b ∧
      (responses b).map (fun r => (r.messageId, r.offset)) = [(1, 0), (2, 1)] ∧
      ((b.logs ⟨"orders", 0⟩).records.map fun item => item.1.reservationKey)
        = [some sampleKey, some sampleKey] := by
  decide +kernel

end Broker

end BetterMQ
