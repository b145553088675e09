import BetterMQ.Journal.Stores
import BetterMQ.Lib.SnapshotLog

/-!
# Delayed jobs

`ScheduleQueue` (broker-schedule, `lib.rs`): a job waits in the heap until it is due, is in flight
while the schedule worker publishes it, and is removed from the files when it is completed or
cancelled. A publish that fails puts the job back with `requeue`, which only writes the memory.

`cancel` finds a job that is in flight too, and removes it from the files; but the worker still has
its copy, and `requeue` does not ask whether the job is in flight any more.

* **`cancelled_never_due`** — when only jobs that are still in flight are put back, a cancelled job
  is not due again, before or after the queue is opened again;
* **`requeue_brings_back_cancelled`** — a job cancelled during its failing publish is.
-/

namespace BetterMQ

deriving instance DecidableEq for HeapItem
deriving instance DecidableEq for JournalOp

/-- `ScheduleQueue`, with its files, the jobs that the worker has popped and not settled (`popped`),
and what has been asked of it. -/
structure ScheduleQueue (ρ : Type) where
  heap : List (HeapItem ρ)
  inFlight : List (HeapItem ρ)
  sequence : Nat
  journalOps : Nat
  files : SnapshotLog (List (HeapItem ρ)) (JournalOp ρ)
  popped : List (HeapItem ρ)
  /-- The ids given out. -/
  ids : List Uuid
  /-- The ids for which `cancel` has returned a job. -/
  cancelled : List Uuid
  deriving DecidableEq

inductive ScheduleEvent (ρ : Type) where
  | schedule (item : HeapItem ρ) (fate : CompactFate)
  | cancel (id : Uuid) (fate : CompactFate)
  | popDue (nowMs : Int)
  /-- The publish of popped job `i` was accepted. -/
  | complete (i : Nat) (fate : CompactFate)
  /-- The publish of popped job `i` failed. -/
  | requeue (i : Nat)
  | reopen

namespace ScheduleQueue

variable {ρ : Type}

def empty : ScheduleQueue ρ := ⟨[], [], 0, 0, ⟨[], 0, []⟩, [], [], []⟩

def compactOps : Nat := 1024

section

variable (s : ScheduleQueue ρ)

def appendOp (op : JournalOp ρ) : ScheduleQueue ρ :=
  { s with
    sequence := s.sequence + 1
    journalOps := s.journalOps + 1
    files := s.files.append s.sequence op }

def maybeCompact (fate : CompactFate) : ScheduleQueue ρ :=
  if s.journalOps < compactOps then s
  else { s with
    files := s.files.compact s.sequence (s.heap ++ s.inFlight) fate
    journalOps := if fate = .truncated then 0 else s.journalOps }

def schedule (item : HeapItem ρ) (fate : CompactFate) : ScheduleQueue ρ :=
  { s.appendOp (.add item) with heap := item :: s.heap, ids := item.id :: s.ids }.maybeCompact fate

/-- A job of the heap is taken before one in flight. Without either the call fails, but the heap is
the same. -/
def cancel (id : Uuid) (fate : CompactFate) : ScheduleQueue ρ :=
  if s.heap.any (·.id = id) then
    { s.appendOp (.remove id) with
      heap := s.heap.filter (·.id ≠ id), cancelled := id :: s.cancelled }.maybeCompact fate
  else if s.inFlight.any (·.id = id) then
    { s.appendOp (.remove id) with
      inFlight := s.inFlight.filter (·.id ≠ id), cancelled := id :: s.cancelled }.maybeCompact fate
  else s

/-- The jobs that `pop_due` returns. -/
def due (nowMs : Int) : List (HeapItem ρ) :=
  s.heap.filter (·.deliverAtMs ≤ nowMs)

end

/-- Insert into the map of jobs in flight. -/
def insertJob (jobs : List (HeapItem ρ)) (item : HeapItem ρ) : List (HeapItem ρ) :=
  item :: jobs.filter (·.id ≠ item.id)

section

variable (s : ScheduleQueue ρ)

def popDue (nowMs : Int) : ScheduleQueue ρ :=
  { s with
    heap := s.heap.filter (nowMs < ·.deliverAtMs)
    inFlight := (s.due nowMs).foldl insertJob s.inFlight
    popped := s.popped ++ s.due nowMs }

def complete (id : Uuid) (fate : CompactFate) : ScheduleQueue ρ :=
  { s.appendOp (.remove id) with inFlight := s.inFlight.filter (·.id ≠ id) }.maybeCompact fate

def requeue (job : HeapItem ρ) : ScheduleQueue ρ :=
  { s with inFlight := s.inFlight.filter (·.id ≠ job.id), heap := job :: s.heap }

/-- What the files hold. -/
def stored : LogView (List (HeapItem ρ)) := s.files.load JournalOp.apply

/-- `open`, after the process has ended. -/
def reopen : ScheduleQueue ρ :=
  { s with
    heap := s.stored.value, inFlight := [], popped := []
    sequence := s.stored.sequence, journalOps := s.stored.operations }

/-- The worker is done with popped job `i`. -/
def settle (i : Nat) : ScheduleQueue ρ :=
  { s with popped := s.popped.eraseIdx i }

/-- `Uuid::new_v4` gives an id that has not been given out. -/
def step : ScheduleEvent ρ → Option (ScheduleQueue ρ)
  | .schedule item fate => if item.id ∈ s.ids then none else some (s.schedule item fate)
  | .cancel id fate => some (s.cancel id fate)
  | .popDue nowMs => some (s.popDue nowMs)
  | .complete i fate =>
    s.popped[i]?.map fun job => (s.settle i).complete job.id fate
  | .requeue i => s.popped[i]?.map fun job => (s.settle i).requeue job
  | .reopen => some s.reopen

/-- A job that is put back is still in flight. -/
def InFlight : ScheduleEvent ρ → Prop
  | .requeue i => ∀ job, s.popped[i]? = some job → ∃ item ∈ s.inFlight, item.id = job.id
  | _ => True

end

/-! ## Cancelled jobs -/

/-- A cancelled job is in no place that a job can come back from. -/
structure Consistent (s : ScheduleQueue ρ) : Prop where
  upTo : s.files.UpTo JournalOp.apply s.sequence
  one : ∀ a ∈ s.heap ++ s.inFlight, ∀ b ∈ s.heap ++ s.inFlight, a.id = b.id → a = b
  oneStored : ∀ a ∈ s.stored.value, ∀ b ∈ s.stored.value, a.id = b.id → a = b
  apart : ∀ a ∈ s.heap, ∀ b ∈ s.inFlight, a.id ≠ b.id
  known : ∀ a ∈ s.heap ++ s.inFlight ++ s.popped ++ s.stored.value, a.id ∈ s.ids
  knownCancelled : ∀ id ∈ s.cancelled, id ∈ s.ids
  gone : ∀ a ∈ s.heap ++ s.inFlight ++ s.stored.value, a.id ∉ s.cancelled

variable {s : ScheduleQueue ρ}

theorem Consistent.empty : (empty : ScheduleQueue ρ).Consistent := by
  refine ⟨⟨rfl, ?_⟩, ?_, ?_, ?_, ?_, ?_, ?_⟩ <;>
    simp [ScheduleQueue.empty, stored, SnapshotLog.load]

section

variable (h : s.Consistent)

include h

theorem Consistent.maybeCompact (fate : CompactFate) : (s.maybeCompact fate).Consistent := by
  rw [ScheduleQueue.maybeCompact]
  split
  · exact h
  · have hstored : ((s.files.compact s.sequence (s.heap ++ s.inFlight) fate).load
        JournalOp.apply).value = s.heap ++ s.inFlight ∨
        ((s.files.compact s.sequence (s.heap ++ s.inFlight) fate).load
          JournalOp.apply).value = s.stored.value := by
      by_cases hfate : fate = .failed
      · exact .inr (by rw [hfate]; rfl)
      · exact .inl (by rw [SnapshotLog.load_compact h.upTo _ hfate])
    have hone := h.one
    have holdOne := h.oneStored
    have hknown := h.known
    have hgone := h.gone
    refine ⟨h.upTo.compact _ fate, hone, ?_, h.apart, ?_, h.knownCancelled, ?_⟩ <;>
      rcases hstored with hmemory | hfiles <;> grind [stored]

theorem stored_appendOp (op : JournalOp ρ) :
    ((s.files.append s.sequence op).load JournalOp.apply).value = op.apply s.stored.value := by
  rw [SnapshotLog.load_append h.upTo]
  rfl

theorem Consistent.schedule {item : HeapItem ρ} (hnew : item.id ∉ s.ids)
    (fate : CompactFate) : (s.schedule item fate).Consistent := by
  have hstored := stored_appendOp h (.add item)
  refine Consistent.maybeCompact ⟨h.upTo.append _, ?_, ?_, ?_, ?_, ?_, ?_⟩ fate <;>
    grind [Consistent, stored, appendOp, JournalOp.apply]

theorem Consistent.cancel (id : Uuid) (fate : CompactFate) : (s.cancel id fate).Consistent := by
  have hstored := stored_appendOp h (.remove id)
  rw [ScheduleQueue.cancel]
  split
  · refine Consistent.maybeCompact ⟨h.upTo.append _, ?_, ?_, ?_, ?_, ?_, ?_⟩ fate <;>
      grind [Consistent, stored, appendOp, JournalOp.apply]
  · split
    · refine Consistent.maybeCompact ⟨h.upTo.append _, ?_, ?_, ?_, ?_, ?_, ?_⟩ fate <;>
        grind [Consistent, stored, appendOp, JournalOp.apply]
    · exact h

theorem Consistent.complete (id : Uuid) (fate : CompactFate) : (s.complete id fate).Consistent := by
  have hstored := stored_appendOp h (.remove id)
  refine Consistent.maybeCompact ⟨h.upTo.append _, ?_, ?_, ?_, ?_, ?_, ?_⟩ fate <;>
    grind [Consistent, stored, appendOp, JournalOp.apply]

end

theorem mem_foldl_insertJob {items jobs : List (HeapItem ρ)} {a : HeapItem ρ}
    (h : a ∈ items.foldl insertJob jobs) : a ∈ items ∨ a ∈ jobs := by
  induction items generalizing jobs with
  | nil => exact .inr h
  | cons item items ih =>
    rcases ih h with hitem | hjobs
    · exact .inl (.tail _ hitem)
    · grind [insertJob]

section

variable (h : s.Consistent)

include h

theorem Consistent.popDue (nowMs : Int) : (s.popDue nowMs).Consistent := by
  have hmem : ∀ a ∈ (s.due nowMs).foldl insertJob s.inFlight, a ∈ s.due nowMs ∨ a ∈ s.inFlight :=
    fun a ha => mem_foldl_insertJob ha
  refine ⟨h.upTo, ?_, h.oneStored, ?_, ?_, h.knownCancelled, ?_⟩ <;>
    grind [Consistent, stored, ScheduleQueue.popDue, due]

theorem Consistent.requeue {job item : HeapItem ρ} (hitem : item ∈ s.inFlight)
    (hid : item.id = job.id) : (s.requeue job).Consistent := by
  refine ⟨h.upTo, ?_, h.oneStored, ?_, ?_, h.knownCancelled, ?_⟩ <;>
    grind [Consistent, stored, ScheduleQueue.requeue]

theorem Consistent.settle (i : Nat) : (s.settle i).Consistent := by
  refine ⟨h.upTo, h.one, h.oneStored, h.apart, ?_, h.knownCancelled, h.gone⟩
  grind [Consistent, List.mem_of_mem_eraseIdx, ScheduleQueue.settle, stored]

theorem Consistent.reopen : s.reopen.Consistent := by
  have hlast : s.stored.sequence = s.sequence := h.upTo.last
  refine ⟨?_, ?_, h.oneStored, ?_, ?_, h.knownCancelled, ?_⟩ <;>
    grind [Consistent, stored, ScheduleQueue.reopen]

theorem Consistent.step {e : ScheduleEvent ρ} (hgood : s.InFlight e)
    {s' : ScheduleQueue ρ} (hstep : s.step e = some s') : s'.Consistent := by
  cases e with
  | schedule item fate =>
    obtain ⟨hnew, hsome⟩ := Option.ite_none_left_eq_some.mp hstep
    cases hsome
    exact h.schedule hnew fate
  | cancel id fate =>
    cases hstep
    exact h.cancel id fate
  | popDue nowMs =>
    cases hstep
    exact h.popDue nowMs
  | complete i fate =>
    obtain ⟨job, -, rfl⟩ := Option.map_eq_some_iff.mp hstep
    exact (h.settle i).complete job.id fate
  | requeue i =>
    obtain ⟨job, hjob, rfl⟩ := Option.map_eq_some_iff.mp hstep
    obtain ⟨item, hitem, hid⟩ := hgood job hjob
    exact (h.settle i).requeue hitem hid
  | reopen =>
    cases hstep
    exact h.reopen

end

/-- **A cancelled job is not due again.** When a job is put back only while it is in flight, then
whatever happens, in every state, neither `pop_due` nor `pop_due` on the queue opened again returns
a job for which `cancel` has returned. -/
theorem cancelled_never_due {events : List (ScheduleEvent ρ)} {s : ScheduleQueue ρ}
    (hrun : Run step InFlight empty events s) (nowMs : Int) :
    ∀ job ∈ s.due nowMs ++ s.reopen.due nowMs, job.id ∉ s.cancelled := by
  have hs : s.Consistent :=
    Run.invariant Consistent (fun _ _ _ h hgood hstep => h.step hgood hstep) hrun .empty
  have hgone := hs.gone
  grind [due, reopen]

instance (s : ScheduleQueue ρ) (e : ScheduleEvent ρ) : Decidable (s.InFlight e) := by
  cases e <;> unfold InFlight <;> infer_instance

/-- A job is put back after its publish failed, then cancelled. -/
theorem cancelled_after_requeue : ∃ s : ScheduleQueue Unit,
    Run step InFlight empty [.schedule ⟨10, 1#128, ()⟩ .truncated, .popDue 10, .requeue 0,
      .cancel 1#128 .truncated] s ∧ s.cancelled = [1#128] ∧
      ∀ job ∈ s.due 10 ++ s.reopen.due 10, job.id ∉ s.cancelled := by
  exact exists_and₂_of (by decide +kernel) fun s hrun _ => cancelled_never_due hrun 10

/-- A job is cancelled while it is published. The publish fails, and the job is due again. -/
theorem requeue_brings_back_cancelled : ∃ s : ScheduleQueue Unit,
    AnyRun step empty [.schedule ⟨10, 1#128, ()⟩ .truncated, .popDue 10,
      .cancel 1#128 .truncated, .requeue 0] s ∧
      s.cancelled = [1#128] ∧ s.due 10 = [⟨10, 1#128, ()⟩] := by
  decide +kernel

end ScheduleQueue

end BetterMQ
