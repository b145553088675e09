import BetterMQ.Journal.Stores
import BetterMQ.Lib.SnapshotLog
import Mathlib.Data.List.Nodup

/-!
# Cron jobs

`CronRegistry` (broker-schedule, `cron.rs`). `pop_due` advances the next run of a job in memory
only; `commit_fire` stores it after the publish, `revert_fire` takes it back. A crash in between
finds the old next run in the files, so the occurrence is due again. But compaction stores the
memory as it is, with the advanced runs of the jobs that are still being published.

* **`unfired_due_again`** — without a compaction meanwhile, the files keep a next run no later than
  any occurrence that was popped and not settled;
* **`compaction_skips_occurrence`** — a compaction between `pop_due` and a crash loses one.
-/

namespace BetterMQ

open List

/-- What the registry reads of a `CronJob` besides its id; the key is that of its request. -/
structure CronSpec where
  cron : String
  everySeconds : Option (BitVec 64)
  paused : Bool
  nextRunAtMs : Int
  lastRunAtMs : Option Int
  updatedAtMs : Int
  idempotencyKey : Option String
  deriving DecidableEq

deriving instance DecidableEq for CronJob
deriving instance DecidableEq for CronCommand

abbrev CronJobs := List (CronJob CronSpec)

/-- `CronRegistry`, with its files and the jobs that the worker has popped and not settled. -/
structure CronRegistry where
  jobs : CronJobs
  sequence : Nat
  journalOps : Nat
  files : SnapshotLog CronJobs (CronCommand CronSpec)
  popped : CronJobs
  deriving DecidableEq

/-- The calls that write. `resume` is `setPaused` and then `updateNextRun`; the last two settle a
popped job. -/
inductive CronCall where
  | create (job : CronJob CronSpec)
  | upsert (job : CronJob CronSpec)
  | delete (id : Uuid)
  | setPaused (id : Uuid) (paused : Bool)
  | updateNextRun (id : Uuid) (nextRunAtMs : Int)
  | commitFire (i : Nat)
  | revertFire (i : Nat)

inductive CronEvent where
  | call (call : CronCall) (fate : CompactFate)
  | popDue (nowMs : Int)
  | reopen

/-- `i64` with saturation. -/
def saturateI64 (n : Int) : Int := max (-2 ^ 63) (min n (2 ^ 63 - 1))

/-- The next time of a cron expression, `next_run_after_cron`; `none` where it fails. -/
structure CronEnv where
  nextRunAfterCron : String → Int → Option Int

def CronEnv.nextRunForJob (env : CronEnv) (job : CronSpec) (afterMs : Int) : Option Int :=
  match job.everySeconds with
  | some secs => some (saturateI64 (afterMs + saturateI64 (secs.toInt * 1000)))
  | none => env.nextRunAfterCron job.cron afterMs

/-- The job that a command is about. -/
def CronCommand.id {κ : Type} : CronCommand κ → Uuid
  | .upsert job => job.id
  | .delete id => id

/-- What a command leaves for its id. -/
def CronCommand.job {κ : Type} : CronCommand κ → Option (CronJob κ)
  | .upsert job => some job
  | .delete _ => none

namespace CronRegistry

def empty : CronRegistry := ⟨[], 0, 0, ⟨[], 0, []⟩, []⟩

def compactOps : Nat := 1024

def lookup (jobs : CronJobs) (id : Uuid) : Option (CronJob CronSpec) :=
  jobs.find? (·.id = id)

section

variable (r : CronRegistry)

def get (id : Uuid) : Option (CronJob CronSpec) := lookup r.jobs id

/-- The job with the given id, changed. -/
def change (id : Uuid) (f : CronSpec → CronSpec) : Option (CronCommand CronSpec) :=
  (r.get id).map fun job => .upsert { job with spec := f job.spec }

/-- What a call appends; nothing where it fails or leaves a newer job alone. -/
def command : CronCall → Option (CronCommand CronSpec)
  | .create job => some (.upsert job)
  | .upsert job =>
    if (r.get job.id).any fun existing => job.spec.updatedAtMs < existing.spec.updatedAtMs
    then none else some (.upsert job)
  | .delete id => (r.get id).map fun _ => .delete id
  | .setPaused id paused => r.change id fun job => { job with paused }
  | .updateNextRun id nextRunAtMs => r.change id fun job => { job with nextRunAtMs }
  | .commitFire i => r.popped[i]?.bind fun job => r.change job.id id
  | .revertFire i => r.popped[i]?.bind fun job => r.change job.id fun restored =>
    { restored with nextRunAtMs := job.spec.nextRunAtMs, lastRunAtMs := job.spec.lastRunAtMs }

/-- The popped jobs that are not settled after a call. -/
def unsettled : CronCall → CronJobs
  | .commitFire i | .revertFire i => r.popped.eraseIdx i
  | _ => r.popped

/-- `append_command` and `apply_command`. -/
def write (c : CronCommand CronSpec) : CronRegistry :=
  { r with
    jobs := c.apply r.jobs
    sequence := r.sequence + 1
    journalOps := r.journalOps + 1
    files := r.files.append r.sequence c }

def maybeCompact (fate : CompactFate) : CronRegistry :=
  if r.journalOps < compactOps then r
  else { r with
    files := r.files.compact r.sequence r.jobs fate
    journalOps := if fate = .truncated then 0 else r.journalOps }

end

/-- A job of which `pop_due` takes the occurrence at its next run. -/
def Due (nowMs : Int) (job : CronJob CronSpec) : Prop :=
  job.spec.paused = false ∧ job.spec.nextRunAtMs ≤ nowMs

instance (nowMs : Int) : DecidablePred (Due nowMs) :=
  fun _ => inferInstanceAs (Decidable (_ ∧ _))

def fired (nowMs : Int) (job : CronJob CronSpec) : CronJob CronSpec :=
  { job with spec := { job.spec with lastRunAtMs := some nowMs } }

/-- A due job with its next run. -/
def advance (env : CronEnv) (nowMs : Int) (job : CronJob CronSpec) : CronJob CronSpec :=
  if Due nowMs job then
    { job with spec := { job.spec with
      lastRunAtMs := some nowMs
      nextRunAtMs := (env.nextRunForJob job.spec nowMs).getD job.spec.nextRunAtMs } }
  else job

def popDue (env : CronEnv) (r : CronRegistry) (nowMs : Int) : CronRegistry :=
  { r with
    jobs := r.jobs.map (advance env nowMs)
    popped := r.popped ++ (r.jobs.filter (Due nowMs)).map (fired nowMs) }

/-- What the files hold. -/
def stored (r : CronRegistry) : LogView CronJobs :=
  r.files.load CronCommand.apply

/-- `open`, after the process has ended. -/
def reopen (r : CronRegistry) : CronRegistry :=
  { r with
    jobs := r.stored.value, popped := []
    sequence := r.stored.sequence, journalOps := r.stored.operations }

def step (env : CronEnv) (r : CronRegistry) : CronEvent → Option CronRegistry
  | .call call fate =>
    let settled := { r with popped := r.unsettled call }
    some (match r.command call with
      | some c => (settled.write c).maybeCompact fate
      | none => settled)
  | .popDue nowMs => some (r.popDue env nowMs)
  | .reopen => some r.reopen

/-- A call is about no popped job but the one it settles, and stores no snapshot while a popped job
is left. The next run of a due job is not before the occurrence. -/
def Undisturbed (env : CronEnv) (r : CronRegistry) : CronEvent → Prop
  | .call call fate => ∀ c, r.command call = some c →
    (∀ job ∈ r.unsettled call, job.id ≠ c.id) ∧
      (r.journalOps + 1 < compactOps ∨ fate = .failed ∨ r.unsettled call = [])
  | .popDue nowMs => ∀ job ∈ r.jobs, Due nowMs job →
    ∀ next, env.nextRunForJob job.spec nowMs = some next → job.spec.nextRunAtMs ≤ next
  | .reopen => True

/-! ## Jobs by id -/

theorem lookup_apply (c : CronCommand CronSpec) (jobs : CronJobs) (id : Uuid) :
    lookup (c.apply jobs) id = if c.id = id then c.job else lookup jobs id := by
  cases c with
  | upsert job =>
    change lookup (upsertJob job jobs) id = if job.id = id then some job else lookup jobs id
    induction jobs with
    | nil | cons => grind [lookup, upsertJob]
  | delete id' =>
    change (jobs.filter (·.id ≠ id')).find? (·.id = id) = if id' = id then none else jobs.find? _
    induction jobs with
    | nil => grind
    | cons existing jobs ih => grind

theorem map_id_upsertJob (job : CronJob CronSpec) (jobs : CronJobs) :
    (upsertJob job jobs).map CronJob.id =
      if job.id ∈ jobs.map CronJob.id then jobs.map CronJob.id
      else jobs.map CronJob.id ++ [job.id] := by
  induction jobs with
  | nil => rfl
  | cons existing jobs ih => grind [upsertJob]

variable {jobs : CronJobs}

theorem nodup_apply (c : CronCommand CronSpec) (h : (jobs.map CronJob.id).Nodup) :
    ((c.apply jobs).map CronJob.id).Nodup := by
  cases c with
  | upsert job =>
    change ((upsertJob job jobs).map CronJob.id).Nodup
    rw [map_id_upsertJob]
    grind
  | delete id => exact h.sublist (filter_sublist.map _)

variable {job : CronJob CronSpec}

theorem lookup_of_mem (h : (jobs.map CronJob.id).Nodup) (hjob : job ∈ jobs) :
    lookup jobs job.id = some job := by
  induction jobs with
  | nil => cases hjob
  | cons existing jobs ih => grind [lookup]

@[simp] theorem advance_id (env : CronEnv) (nowMs : Int) (job : CronJob CronSpec) :
    (advance env nowMs job).id = job.id := by
  grind [advance]

/-! ## Occurrences that are not settled -/

/-- The files have the job, with a next run no later than that of `job`. -/
def Kept (jobs : CronJobs) (job : CronJob CronSpec) : Prop :=
  ∃ old, lookup jobs job.id = some old ∧ old.spec.nextRunAtMs ≤ job.spec.nextRunAtMs

/-- The files are never ahead of the memory, nor of an occurrence that is not settled. -/
structure Behind (r : CronRegistry) : Prop where
  upTo : r.files.UpTo CronCommand.apply r.sequence
  nodup : (r.jobs.map CronJob.id).Nodup
  nodupStored : (r.stored.value.map CronJob.id).Nodup
  jobs : ∀ job ∈ r.jobs, Kept r.stored.value job
  popped : ∀ job ∈ r.popped, Kept r.stored.value job

variable {env : CronEnv} {r : CronRegistry} {c : CronCommand CronSpec}

theorem Behind.empty : empty.Behind := by
  refine ⟨⟨rfl, ?_⟩, ?_, ?_, ?_, ?_⟩ <;> simp [CronRegistry.empty, stored, SnapshotLog.load]

theorem Kept.of_mem (h : (jobs.map CronJob.id).Nodup) (hjob : job ∈ jobs) :
    Kept jobs job :=
  ⟨job, lookup_of_mem h hjob, le_refl _⟩

theorem Kept.apply (h : Kept jobs job) (hother : job.id ≠ c.id) : Kept (c.apply jobs) job := by
  obtain ⟨old, hold, hle⟩ := h
  exact ⟨old, by rw [lookup_apply, if_neg hother.symm]; exact hold, hle⟩

section

variable (h : r.Behind)

include h

theorem stored_write (c : CronCommand CronSpec) :
    (r.write c).stored.value = c.apply r.stored.value := by
  rw [stored, write, SnapshotLog.load_append h.upTo]
  rfl

theorem Behind.write (hother : ∀ job ∈ r.popped, job.id ≠ c.id) : (r.write c).Behind := by
  have hnodup := nodup_apply c h.nodup
  have hstored := stored_write h c
  refine ⟨h.upTo.append c, hnodup, hstored ▸ nodup_apply c h.nodupStored, ?_, ?_⟩
  · -- the job of the command is the same in both; another is where it was
    intro job hjob
    have hlookup := lookup_of_mem hnodup hjob
    rw [hstored]
    rw [lookup_apply] at hlookup
    by_cases hid : c.id = job.id
    · rw [if_pos hid] at hlookup
      exact ⟨job, by rw [lookup_apply, if_pos hid]; exact hlookup, le_refl _⟩
    · rw [if_neg hid] at hlookup
      exact (h.jobs job (mem_of_find?_eq_some hlookup)).apply (Ne.symm hid)
  · intro job hjob
    rw [hstored]
    exact (h.popped job hjob).apply (hother job hjob)

theorem Behind.maybeCompact {fate : CompactFate}
    (hfate : r.journalOps < compactOps ∨ fate = .failed ∨ r.popped = []) :
    (r.maybeCompact fate).Behind := by
  rw [CronRegistry.maybeCompact]
  split
  · exact h
  · by_cases hfailed : fate = .failed
    · rw [hfailed]
      exact ⟨h.upTo, h.nodup, h.nodupStored, h.jobs, h.popped⟩
    · have hstored := congrArg LogView.value (SnapshotLog.load_compact h.upTo r.jobs hfailed)
      have hnone : r.popped = [] := by grind
      refine ⟨h.upTo.compact _ fate, h.nodup, hstored ▸ h.nodup, fun job hjob => ?_, ?_⟩
      · rw [stored, hstored]
        exact .of_mem h.nodup hjob
      · rw [hnone]
        exact forall_mem_nil _

theorem Behind.popDue {nowMs : Int} (hgood : r.Undisturbed env (.popDue nowMs)) :
    (r.popDue env nowMs).Behind := by
  have hids : (r.jobs.map (advance env nowMs)).map CronJob.id = r.jobs.map CronJob.id := by
    rw [map_map]
    exact map_congr_left fun job _ => advance_id env nowMs job
  refine ⟨h.upTo, hids ▸ h.nodup, h.nodupStored, ?_, ?_⟩
  · intro job hjob
    obtain ⟨before, hbefore, rfl⟩ := mem_map.mp hjob
    obtain ⟨old, hold, hle⟩ := h.jobs before hbefore
    refine ⟨old, by rw [advance_id]; exact hold, le_trans hle ?_⟩
    have hforward := hgood before hbefore
    cases hnext : env.nextRunForJob before.spec nowMs <;> grind [advance]
  · intro job hjob
    rcases mem_append.mp hjob with hold | hnew
    · exact h.popped job hold
    · obtain ⟨before, hbefore, rfl⟩ := mem_map.mp hnew
      exact h.jobs before (mem_filter.mp hbefore).1

theorem Behind.settled (call : CronCall) : { r with popped := r.unsettled call }.Behind := by
  refine ⟨h.upTo, h.nodup, h.nodupStored, h.jobs, fun job hjob => h.popped job ?_⟩
  cases call with
  | commitFire | revertFire => exact mem_of_mem_eraseIdx hjob
  | _ => exact hjob

theorem Behind.step {e : CronEvent} (hgood : r.Undisturbed env e)
    {r' : CronRegistry} (hstep : r.step env e = some r') : r'.Behind := by
  cases e with
  | call call fate =>
    cases hstep
    cases hc : r.command call with
    | none => exact h.settled call
    | some c =>
      obtain ⟨hother, hfate⟩ := hgood c hc
      exact ((h.settled call).write hother).maybeCompact hfate
  | popDue nowMs =>
    cases hstep
    exact h.popDue hgood
  | reopen =>
    cases hstep
    have hupTo : r.files.UpTo CronCommand.apply r.stored.sequence :=
      ⟨rfl, fun c hc => (h.upTo.journal c hc).trans_eq h.upTo.last.symm⟩
    exact ⟨hupTo, h.nodupStored, h.nodupStored, fun _ hjob => .of_mem h.nodupStored hjob,
      forall_mem_nil _⟩

end

/-- **An occurrence that is not settled is due again.** In every run in which calls leave the
popped jobs alone and no snapshot is stored while there is one, a crash at any time leaves each of
them with a next run no later than the occurrence that was popped. -/
theorem unfired_due_again {events : List CronEvent} {r : CronRegistry}
    (hrun : Run (step env) (Undisturbed env) empty events r) :
    ∀ job ∈ r.popped, ∃ again, r.reopen.get job.id = some again ∧
      again.spec.nextRunAtMs ≤ job.spec.nextRunAtMs :=
  (Run.invariant Behind (fun _ _ _ h hgood hstep => h.step hgood hstep) hrun .empty).popped

instance (env : CronEnv) (r : CronRegistry) (e : CronEvent) : Decidable (r.Undisturbed env e) := by
  cases e <;> unfold Undisturbed <;> infer_instance

/-- A job that runs every ten seconds. -/
def tenSeconds (id : Uuid) : CronJob CronSpec :=
  ⟨id, "every 10s", some 10#64, false, 10000, none, 0, none⟩

def noCron : CronEnv := ⟨fun _ _ => none⟩

/-- Another job is paused while an occurrence is being published. -/
theorem due_again_after_pause : ∃ r, Run (step noCron) (Undisturbed noCron) empty
    [.call (.create (tenSeconds 1#128)) .truncated, .call (.create (tenSeconds 2#128)) .truncated,
      .call (.updateNextRun 2#128 90000) .truncated, .popDue 10000,
      .call (.setPaused 2#128 true) .truncated] r ∧ r.popped ≠ [] ∧
    ∀ job ∈ r.popped, ∃ again, r.reopen.get job.id = some again ∧
      again.spec.nextRunAtMs ≤ job.spec.nextRunAtMs := by
  exact exists_and₂_of (by decide +kernel) fun r hrun _ => unfired_due_again hrun

/-- Two such jobs, after `n` records. -/
def twoJobs (n : Nat) (files : SnapshotLog CronJobs (CronCommand CronSpec)) :
    CronRegistry :=
  ⟨[tenSeconds 1#128, tenSeconds 2#128], n, n, files, []⟩

theorem run_twoJobs {n : Nat} (hn : n + 2 < compactOps) :
    ∃ files, AnyRun (step noCron) empty (.call (.create (tenSeconds 1#128)) .truncated ::
        List.replicate (n + 1) (.call (.create (tenSeconds 2#128)) .truncated))
      (twoJobs (n + 2) files) := by
  induction n with
  | zero => exact ⟨_, .cons trivial rfl (.cons trivial rfl (.nil _))⟩
  | succ n ih =>
    obtain ⟨files, hrun⟩ := ih (Nat.lt_of_succ_lt hn)
    rw [replicate_succ']
    exact ⟨_, hrun.snoc trivial (congrArg some (if_pos hn))⟩

/-- Two jobs are due, and the 1024th record of the journal is the one that settles the second. The
snapshot has the first with its next run; after a crash its occurrence at 10000 is not due. -/
theorem compaction_skips_occurrence : ∃ r, AnyRun (step noCron) empty
    (.call (.create (tenSeconds 1#128)) .truncated ::
      List.replicate 1022 (.call (.create (tenSeconds 2#128)) .truncated) ++
        [.popDue 10000, .call (.commitFire 1) .truncated]) r ∧
    r.popped = [fired 10000 (tenSeconds 1#128)] ∧
    (r.reopen.get 1#128).map (·.spec.nextRunAtMs) = some 20000 := by
  obtain ⟨files, hrun⟩ := run_twoJobs (n := 1021) (by decide)
  exact ⟨_, hrun.append (.cons trivial rfl (.cons trivial rfl (.nil _))), rfl, rfl⟩

end CronRegistry

end BetterMQ
