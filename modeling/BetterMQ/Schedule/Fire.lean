import BetterMQ.Partition.Route
import BetterMQ.Schedule.Cron
import Mathlib

/-!
# Firing cron jobs

The schedule workers of a cluster (`spawn_schedule_worker`). Each node has a `CronRegistry` of its
own, and a worker that publishes the popped jobs and settles them. The idempotency key of a publish
is that of the job's request, or is made from the job's id and the time at which it was popped: the
occurrence itself is in neither.

* **`occurrence_fires_once`** — no occurrence is stored twice and none takes the record of another,
  when no job has a key of its own, each occurrence that was stored or is being published is popped
  again only at the same time, other occurrences of the job at other times, and is published at the
  same leader, which indexes what it stores;
* **`retry_appends_again`**, **`fixed_key_skips_occurrence`** — a publish that stored its record
  without an answer is repeated under another key; a fixed key fires once for all occurrences.
-/

namespace BetterMQ

open List Option

/-- A scheduled occurrence: a job and its `next_run_at_ms`. -/
abbrev Occurrence := Uuid × Int

namespace CronJob

variable (job : CronJob CronSpec)

def occurrence : Occurrence := (job.id, job.spec.nextRunAtMs)

/-- The time that `pop_due` has set. -/
def poppedAtMs : Int := job.spec.lastRunAtMs.getD 0

/-- The key a popped job is published under. -/
def fireKey : String :=
  job.spec.idempotencyKey.getD ("cron:" ++ uuidString job.id ++ ":" ++ toString job.poppedAtMs)

end CronJob

/-- Popped jobs without a key of their own. Of one job, the same occurrence was popped at the same
time, and another at another. -/
def Timed (jobs : CronJobs) : Prop :=
  ∀ a ∈ jobs, a.spec.idempotencyKey = none ∧ ∀ b ∈ jobs, a.id = b.id →
    (a.occurrence = b.occurrence ↔ a.poppedAtMs = b.poppedAtMs)

/-- A stored record and the job it was published for. Without an index entry its leader does not
recognise the key. -/
structure FiredRecord where
  leader : Nat
  job : CronJob CronSpec
  indexed : Bool
  deriving DecidableEq

/-- How a publish ends. Without an acknowledgement a new record may be stored, and indexed. -/
inductive PublishFate where
  | rejected
  | acknowledged
  | unacknowledged (indexed : Bool)
  deriving DecidableEq

structure CronCluster where
  nodes : List CronRegistry
  records : List FiredRecord
  /-- The occurrences that were committed, with the record that was acknowledged. -/
  committed : List (Occurrence × Nat)

inductive FireEvent where
  | node (n : Nat) (e : CronEvent)
  /-- The worker of `n` publishes popped job `i` at a leader, and settles it unless it crashes. -/
  | fire (n i leader : Nat) (fate : PublishFate) (crashes : Bool) (compact : CompactFate)

namespace CronRegistry

/-- What `pop_due` returns. -/
def pops (r : CronRegistry) (nowMs : Int) : CronJobs :=
  (r.jobs.filter (Due nowMs)).map (fired nowMs)

variable {r r' : CronRegistry} {env : CronEnv} {e : CronEvent}

/-- What is popped after an event was so before, or is popped by it. -/
theorem popped_step (hstep : r.step env e = some r') {job : CronJob CronSpec}
    (hjob : job ∈ r'.popped) :
    job ∈ r.popped ∨ ∃ nowMs, e = .popDue nowMs ∧ job ∈ r.pops nowMs := by
  cases e with
  | call call fate =>
    cases hstep
    have hunsettled : job ∈ r.unsettled call := by
      cases hc : r.command call <;> grind [write, maybeCompact]
    cases call <;> grind [unsettled, mem_of_mem_eraseIdx]
  | popDue nowMs =>
    cases hstep
    exact (mem_append.mp hjob).imp_right fun hnew => ⟨nowMs, rfl, hnew⟩
  | reopen =>
    cases hstep
    cases hjob

end CronRegistry

namespace CronCluster

open CronRegistry (noCron tenSeconds)

def start (nodes : Nat) : CronCluster := ⟨replicate nodes .empty, [], []⟩

/-- The record that a leader finds for a key. -/
def known (s : CronCluster) (leader : Nat) (key : String) : Option Nat :=
  s.records.findIdx? fun r => r.leader = leader ∧ r.job.fireKey = key ∧ r.indexed

/-- `fire_scheduled_publish` for a popped job: the records, and the record if it returns `true`. -/
def publish (s : CronCluster) (leader : Nat) (job : CronJob CronSpec) (fate : PublishFate) :
    List FiredRecord × Option Nat :=
  match fate, s.known leader job.fireKey with
  | .rejected, _ => (s.records, none)
  | .acknowledged, some i => (s.records, some i)
  | .acknowledged, none => (s.records ++ [⟨leader, job, true⟩], some s.records.length)
  | .unacknowledged _, some _ => (s.records, none)
  | .unacknowledged indexed, none => (s.records ++ [⟨leader, job, indexed⟩], none)

/-- The settling call after a publish, or the crash before it. -/
def settling (i : Nat) (published crashes : Bool) (compact : CompactFate) : CronEvent :=
  if crashes then .reopen
  else .call (if published then .commitFire i else .revertFire i) compact

def step (env : CronEnv) (s : CronCluster) : FireEvent → Option CronCluster
  | .node n e => s.nodes[n]?.bind fun r => (r.step env e).map fun r' =>
    { s with nodes := s.nodes.set n r' }
  | .fire n i leader fate crashes compact =>
    s.nodes[n]?.bind fun r => r.popped[i]?.bind fun job =>
      let published := s.publish leader job fate
      (r.step env (settling i published.2.isSome crashes compact)).map fun r' =>
        { nodes := s.nodes.set n r'
          records := published.1
          committed := (if crashes then [] else (published.2.map (job.occurrence, ·)).toList) ++
            s.committed }

/-- The jobs that are stored or being published. -/
def tried (s : CronCluster) : CronJobs :=
  s.records.map (·.job) ++ s.nodes.flatMap (·.popped)

/-- Jobs are popped without a key of their own, at a time of their occurrence alone, and published
at the leader that has the record of the occurrence; what a leader stores is indexed. -/
def Punctual (s : CronCluster) : FireEvent → Prop
  | .node n (.popDue nowMs) => ∀ r ∈ s.nodes[n]?, Timed (s.tried ++ r.pops nowMs)
  | .node _ _ => True
  | .fire n i leader fate _ _ => fate ≠ .unacknowledged false ∧ ∀ r ∈ s.nodes[n]?,
    ∀ job ∈ r.popped[i]?, ∀ x ∈ s.records, x.job.occurrence = job.occurrence → x.leader = leader

/-! ## Keys and occurrences -/

theorem hexDigit_inj : ∀ m < 16, ∀ n < 16, hexDigit m = hexDigit n → m = n := by decide

theorem uuidString_inj {a b : Uuid} (h : uuidString a = uuidString b) : a = b := by
  have hlists := String.ofList_injective h
  have hdigits : (range 32).map (fun i => hexDigit ((a >>> (4 * (31 - i))).toNat % 16))
      = (range 32).map fun i => hexDigit ((b >>> (4 * (31 - i))).toNat % 16) := by
    simp [range_succ] at hlists ⊢
    tauto
  refine BitVec.eq_of_getLsbD_eq fun k hk => ?_
  have hnibble := map_inj_left.mp hdigits (31 - k / 4) (mem_range.mpr (by omega))
  have hmod := hexDigit_inj _ (Nat.mod_lt _ (by decide)) _ (Nat.mod_lt _ (by decide)) hnibble
  have hbit (c : Uuid) :
      c.getLsbD k = ((c >>> (4 * (31 - (31 - k / 4)))).toNat % 2 ^ 4).testBit (k % 4) := by
    have hk' : 4 * (31 - (31 - k / 4)) + k % 4 = k := by omega
    rw [Nat.testBit_mod_two_pow, decide_eq_true (Nat.mod_lt k (by decide)), Bool.true_and,
      BitVec.toNat_ushiftRight, Nat.testBit_shiftRight, hk', BitVec.getLsbD]
  rw [hbit a, hbit b]
  exact congrArg (Nat.testBit · _) hmod

theorem length_uuidString (id : Uuid) : (uuidString id).toList.length = 36 := by
  simp [uuidString]

theorem fireKey_eq_iff {a b : CronJob CronSpec} (ha : a.spec.idempotencyKey = none)
    (hb : b.spec.idempotencyKey = none) :
    a.fireKey = b.fireKey ↔ a.id = b.id ∧ a.poppedAtMs = b.poppedAtMs := by
  rw [CronJob.fireKey, CronJob.fireKey, ha, hb, getD_none, getD_none]
  refine ⟨fun h => ?_, fun ⟨hid, htime⟩ => by rw [hid, htime]⟩
  have htexts := congrArg String.toList h
  simp only [String.toList_append, append_assoc, append_cancel_left_eq] at htexts
  obtain ⟨hid, hrest⟩ := append_inj htexts (by rw [length_uuidString, length_uuidString])
  rw [append_cancel_left_eq, String.toList_inj, Int.toString_eq_repr, Int.toString_eq_repr,
    Int.repr_inj] at hrest
  exact ⟨uuidString_inj (String.toList_inj.mp hid), hrest⟩

variable {env : CronEnv} {s s' : CronCluster} {leader : Nat} {job : CronJob CronSpec}

/-- The key of a job is its occurrence. -/
def Keyed (jobs : CronJobs) : Prop :=
  ∀ a ∈ jobs, ∀ b ∈ jobs, a.fireKey = b.fireKey ↔ a.occurrence = b.occurrence

theorem keyed_of_timed {jobs : CronJobs} (h : Timed jobs) : Keyed jobs := by
  intro a ha b hb
  obtain ⟨hkey, htimed⟩ := h a ha
  rw [fireKey_eq_iff hkey (h b hb).1]
  refine ⟨fun ⟨hid, htime⟩ => (htimed b hb hid).mpr htime, fun hsame => ?_⟩
  have hid : a.id = b.id := congrArg Prod.fst hsame
  exact ⟨hid, (htimed b hb hid).mp hsame⟩

/-! ## Records and occurrences -/

/-- No occurrence has two records, and a committed occurrence has its own. -/
structure Once (records : List FiredRecord) (committed : List (Occurrence × Nat)) : Prop where
  nodup : (records.map (·.job.occurrence)).Nodup
  own : ∀ c ∈ committed, records[c.2]?.map (·.job.occurrence) = some c.1

theorem known_eq_some {i : Nat} {key : String} (h : s.known leader key = some i) :
    ∃ r, s.records[i]? = some r ∧ r.leader = leader ∧ r.job.fireKey = key ∧ r.indexed := by
  obtain ⟨hi, hr, -⟩ := findIdx?_eq_some_iff_getElem.mp h
  exact ⟨s.records[i], getElem?_eq_getElem hi, of_decide_eq_true hr⟩

theorem Once.append {records : List FiredRecord} {committed : List (Occurrence × Nat)}
    (h : Once records committed) {r : FiredRecord}
    (hnew : ∀ old ∈ records, old.job.occurrence ≠ r.job.occurrence) :
    Once (records ++ [r]) committed := by
  refine ⟨?_, fun c hc => ?_⟩
  · have hnodup := h.nodup
    grind
  · have hold := h.own c hc
    grind

/-- What is acknowledged is a record of the occurrence. -/
theorem Once.publish (h : Once s.records s.committed) (fate : PublishFate)
    (hkey : ∀ r ∈ s.records, (r.leader = leader ∧ r.job.fireKey = job.fireKey ∧ r.indexed) ↔
      r.job.occurrence = job.occurrence) :
    Once (s.publish leader job fate).1
      (((s.publish leader job fate).2.map (job.occurrence, ·)).toList ++ s.committed) := by
  have hnew : s.known leader job.fireKey = none →
      ∀ old ∈ s.records, old.job.occurrence ≠ job.occurrence := by
    intro hnone old hold hsame
    have hno := findIdx?_eq_none_iff.mp hnone old hold
    exact absurd ((hkey old hold).mpr hsame) (of_decide_eq_false hno)
  unfold CronCluster.publish
  split
  · exact h
  · next i hknown =>
    obtain ⟨r, hr, hmatch⟩ := known_eq_some hknown
    have hocc := (hkey r (mem_of_getElem? hr)).mp hmatch
    exact ⟨h.nodup, forall_mem_cons.mpr ⟨by simp [hr, hocc], h.own⟩⟩
  · next hnone =>
    have happend := h.append (r := ⟨leader, job, true⟩) (hnew hnone)
    exact ⟨happend.nodup, forall_mem_cons.mpr ⟨by simp, happend.own⟩⟩
  · exact h
  · next hnone => exact h.append (hnew hnone)

/-- A record of the publish is an old one, or the indexed one of the job. -/
theorem mem_publish {fate : PublishFate} (hfate : fate ≠ .unacknowledged false) {x : FiredRecord}
    (hx : x ∈ (s.publish leader job fate).1) : x ∈ s.records ∨ x.job = job ∧ x.indexed := by
  unfold CronCluster.publish at hx
  grind

structure Inv (s : CronCluster) : Prop where
  keyed : Keyed s.tried
  indexed : ∀ x ∈ s.records, x.indexed
  once : Once s.records s.committed

theorem mem_tried : job ∈ s.tried ↔
    (∃ x ∈ s.records, x.job = job) ∨ ∃ r ∈ s.nodes, job ∈ r.popped := by
  simp [tried]

theorem Inv.start (nodes : Nat) : Inv (start nodes) where
  keyed _ hjob := by simp [tried, CronCluster.start, CronRegistry.empty] at hjob
  indexed := nofun
  once := ⟨nodup_nil, nofun⟩

/-- What is tried after an event of one node. -/
theorem mem_tried_set {r r' : CronRegistry} {e : CronEvent} {n : Nat} {records : List FiredRecord}
    {committed : List (Occurrence × Nat)} (hr : s.nodes[n]? = some r)
    (hstep : r.step env e = some r') (hjob : job ∈ tried ⟨s.nodes.set n r', records, committed⟩) :
    (∃ x ∈ records, x.job = job) ∨ job ∈ s.tried ∨
      ∃ nowMs, e = .popDue nowMs ∧ job ∈ r.pops nowMs := by
  refine (mem_tried.mp hjob).imp_right fun ⟨node, hnode, hpopped⟩ => ?_
  rcases mem_or_eq_of_mem_set hnode with hold | rfl
  · exact .inl (mem_tried.mpr (.inr ⟨node, hold, hpopped⟩))
  · exact (CronRegistry.popped_step hstep hpopped).imp_left fun hold =>
      mem_tried.mpr (.inr ⟨r, mem_of_getElem? hr, hold⟩)

theorem Keyed.of_subset {jobs jobs' : CronJobs} (h : Keyed jobs)
    (hsub : jobs' ⊆ jobs) : Keyed jobs' := fun a ha b hb => h a (hsub ha) b (hsub hb)

section

variable (h : Inv s)

include h

theorem Inv.node {n : Nat} {e : CronEvent} (hgood : s.Punctual (.node n e))
    (hstep : s.step env (.node n e) = some s') : Inv s' := by
  obtain ⟨r, hr, hmap⟩ := bind_eq_some_iff.mp hstep
  obtain ⟨r', hr', rfl⟩ := map_eq_some_iff.mp hmap
  refine ⟨?_, h.indexed, h.once⟩
  have htried : ∀ job ∈ tried { s with nodes := s.nodes.set n r' }, job ∈ s.tried ∨
      ∃ nowMs, e = .popDue nowMs ∧ job ∈ r.pops nowMs := fun job hjob =>
    (mem_tried_set hr hr' hjob).elim (fun hx => .inl (mem_tried.mpr (.inl hx))) id
  cases e with
  | popDue nowMs =>
    refine (keyed_of_timed (hgood r hr)).of_subset fun job hjob => ?_
    rcases htried job hjob with hold | ⟨_, ⟨⟩, hnew⟩
    · exact mem_append_left _ hold
    · exact mem_append_right _ hnew
  | call | reopen => exact h.keyed.of_subset fun job hjob => (htried job hjob).resolve_right nofun

theorem Inv.fire {n i : Nat} {fate : PublishFate} {crashes : Bool} {compact : CompactFate}
    (hgood : s.Punctual (.fire n i leader fate crashes compact))
    (hstep : s.step env (.fire n i leader fate crashes compact) = some s') : Inv s' := by
  obtain ⟨r, hr, hbind⟩ := bind_eq_some_iff.mp hstep
  obtain ⟨job, hjob, hmap⟩ := bind_eq_some_iff.mp hbind
  obtain ⟨r', hr', rfl⟩ := map_eq_some_iff.mp hmap
  obtain ⟨hfate, hleader⟩ := hgood
  have hself : job ∈ s.tried :=
    mem_tried.mpr (.inr ⟨r, mem_of_getElem? hr, mem_of_getElem? hjob⟩)
  -- the key of the publish belongs to the occurrence
  have hkey : ∀ x ∈ s.records, (x.leader = leader ∧ x.job.fireKey = job.fireKey ∧ x.indexed) ↔
      x.job.occurrence = job.occurrence := by
    intro x hx
    have hiff := h.keyed x.job (mem_tried.mpr (.inl ⟨x, hx, rfl⟩)) job hself
    exact ⟨fun hmatch => hiff.mp hmatch.2.1,
      fun hsame => ⟨hleader r hr job hjob x hx hsame, hiff.mpr hsame, h.indexed x hx⟩⟩
  have honce := h.once.publish fate hkey
  refine ⟨h.keyed.of_subset fun x hx => ?_, fun x hx => ?_, ?_⟩
  · rcases mem_tried_set hr hr' hx with ⟨y, hy, rfl⟩ | hold | ⟨nowMs, he, -⟩
    · refine (mem_publish hfate hy).elim (fun hold => ?_) fun hnew => hnew.1 ▸ hself
      exact mem_tried.mpr (.inl ⟨y, hold, rfl⟩)
    · exact hold
    · unfold settling at he
      split at he <;> cases he
  · exact (mem_publish hfate hx).elim (h.indexed x) And.right
  · cases crashes with
    | true => exact ⟨honce.nodup, fun c hc => honce.own c (mem_append_right _ hc)⟩
    | false => exact honce

end

instance (jobs : CronJobs) : Decidable (Timed jobs) :=
  inferInstanceAs (Decidable (∀ _ ∈ _, _))

instance (s : CronCluster) : (e : FireEvent) → Decidable (s.Punctual e)
  | .node n (.popDue nowMs) =>
    inferInstanceAs (Decidable (∀ r ∈ s.nodes[n]?, Timed (s.tried ++ r.pops nowMs)))
  | .node _ (.call ..) | .node _ .reopen => .isTrue trivial
  | .fire .. => inferInstanceAs (Decidable (_ ∧ ∀ r ∈ _, ∀ job ∈ _, ∀ x ∈ _, _))

/-- A job of node 0 that fires at 10000 and at 20000. -/
def twice (job : CronJob CronSpec) (first : PublishFate) : List FireEvent :=
  [.node 0 (.call (.create job) .truncated), .node 0 (.popDue 10000),
    .fire 0 0 0 first false .truncated, .node 0 (.popDue 20000),
    .fire 0 0 0 .acknowledged false .truncated]

/-- Under a fixed key the second occurrence is a duplicate of the first. -/
theorem fixed_key_skips_occurrence : ∃ s,
    AnyRun (step noCron) (start 1) (twice
      ⟨1#128, { (tenSeconds 1#128).spec with idempotencyKey := some "nightly" }⟩ .acknowledged) s ∧
    s.committed = [((1#128, 20000), 0), ((1#128, 10000), 0)] := by
  decide +kernel

end CronCluster

end BetterMQ
