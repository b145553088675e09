import BetterMQ.Dispatch.Engine
import BetterMQ.Lib.SnapshotLog

/-!
# The files of the retry and lifecycle stores

`RetryState` (`retry_state.rs`) and `LifecycleStore` (`lifecycle.rs`) keep a map from `RetryKey` in
a snapshot and a journal. A call appends its event, changes the map, and compacts once the journal
has 1024 events. The snapshot is the map as JSON, and `RetryKey` is a struct: `serde_json` has no
text for such a key, so that only the empty map can be written.

* **`stores_work_iff`** — all calls of a sequence return `Ok`, and the store can be opened after
  each with the right map, exactly if the map is empty whenever a compaction is due;
* **`schedule_fails_at_limit`** — the 1024th `schedule` fails.
-/

namespace BetterMQ

/-- A store with its files. -/
structure KeyedStore (V : Type) where
  records : List V
  sequence : Nat
  journalOps : Nat
  files : SnapshotLog (List V) (KeyedEvent V)

section Keyed

variable {V C : Type} (key : V → RetryKey) (event : List V → C → Option (KeyedEvent V))

/-- What the `clear` of either store appends: nothing for an unknown key. -/
def removeEvent (records : List V) (k : RetryKey) : Option (KeyedEvent V) :=
  if records.any fun r => key r = k then some (.remove k) else none

theorem removeEvent_apply (records : List V) (k : RetryKey) :
    ((removeEvent key records k).map (KeyedEvent.apply key records)).getD records =
      records.filter fun r => key r ≠ k := by
  rw [removeEvent]
  split
  · rfl
  · next hnone => exact (List.filter_eq_self.mpr (by simpa using hnone)).symm

namespace KeyedStore

def empty : KeyedStore V := ⟨[], 0, 0, ⟨[], 0, []⟩⟩

def compactOps : Nat := 1024

/-- `append`, and the change of the map. -/
def append (s : KeyedStore V) (e : KeyedEvent V) : KeyedStore V :=
  { records := e.apply key s.records
    sequence := s.sequence + 1
    journalOps := s.journalOps + 1
    files := s.files.append s.sequence e }

/-- `maybe_compact`: `serde_json::to_vec` fails unless the map is empty. -/
def maybeCompact (s : KeyedStore V) : Bool × KeyedStore V :=
  if s.journalOps < compactOps then (true, s)
  else if s.records.isEmpty then
    (true, { s with journalOps := 0, files := s.files.compact s.sequence s.records .truncated })
  else (false, s)

/-- A call that appends `event`, or nothing. -/
def call (s : KeyedStore V) (c : C) : Bool × KeyedStore V :=
  match event s.records c with
  | none => (true, s)
  | some e => (s.append key e).maybeCompact

/-- Which of the calls return `Ok`. -/
def results (s : KeyedStore V) : List C → List Bool
  | [] => []
  | c :: cs => (s.call key event c).1 :: results (s.call key event c).2 cs

def after (s : KeyedStore V) (cs : List C) : KeyedStore V :=
  cs.foldl (fun s c => (s.call key event c).2) s

/-- What `open` finds. -/
def stored (s : KeyedStore V) : LogView (List V) := s.files.load (KeyedEvent.apply key)

/-- A compaction that is due within `cs` finds an empty map: `n` events are in the journal. -/
def Fits (records : List V) (n : Nat) : List C → Prop
  | [] => True
  | c :: cs =>
    match event records c with
    | none => Fits records n cs
    | some e =>
      if n + 1 < compactOps then Fits (e.apply key records) (n + 1) cs
      else e.apply key records = [] ∧ Fits (e.apply key records) 0 cs

variable {key event}

theorem results_ok_iff (s : KeyedStore V) (cs : List C) :
    (∀ ok ∈ s.results key event cs, ok) ↔ Fits key event s.records s.journalOps cs := by
  induction cs generalizing s with
  | nil => simp [results, Fits]
  | cons c cs ih =>
    rw [results, List.forall_mem_cons, ih, Fits, call]
    cases event s.records c with
    | none => simp
    | some e =>
      by_cases hops : s.journalOps + 1 < compactOps
      · simp [maybeCompact, append, hops]
      · cases hmap : e.apply key s.records <;> simp [maybeCompact, append, hops, hmap]

/-- The files hold the map. -/
structure Saved (key : V → RetryKey) (s : KeyedStore V) : Prop where
  upTo : s.files.UpTo (KeyedEvent.apply key) s.sequence
  value : (s.stored key).value = s.records

variable {s : KeyedStore V}

theorem Saved.append (h : s.Saved key) (e : KeyedEvent V) : (s.append key e).Saved key := by
  refine ⟨h.upTo.append e, ?_⟩
  rw [stored, KeyedStore.append, SnapshotLog.load_append h.upTo]
  exact congrArg (KeyedEvent.apply key · e) h.value

theorem Saved.call (h : s.Saved key) (c : C) : (s.call key event c).2.Saved key := by
  rw [KeyedStore.call]
  split
  · exact h
  · next e _ =>
    have happend := h.append e
    rw [maybeCompact]
    split
    · exact happend
    · split
      · exact ⟨happend.upTo.compact _ .truncated, rfl⟩
      · exact happend

theorem Saved.after (h : s.Saved key) (cs : List C) : (s.after key event cs).Saved key := by
  induction cs generalizing s with
  | nil => exact h
  | cons c cs ih => exact ih (h.call c)

theorem Saved.empty : (empty : KeyedStore V).Saved key := ⟨⟨rfl, List.forall_mem_nil _⟩, rfl⟩

theorem records_call (s : KeyedStore V) (c : C) :
    (s.call key event c).2.records =
      ((event s.records c).map (KeyedEvent.apply key s.records)).getD s.records := by
  rw [KeyedStore.call]
  split
  · next hnone => rw [hnone]; rfl
  · next e hsome =>
    rw [maybeCompact]
    grind [append]

end KeyedStore

end Keyed

/-! ## The two stores -/

inductive RetryCall where
  | schedule (record : RetryEntry)
  | clear (key : RetryKey)

def RetryCall.event (records : List RetryEntry) : RetryCall → Option (KeyedEvent RetryEntry)
  | .schedule record => some (.upsert record)
  | .clear key => removeEvent RetryRecord.key records key

/-- The map that a call is to leave. -/
def RetryCall.apply (records : List RetryEntry) : RetryCall → List RetryEntry
  | .schedule record => RetryState.schedule records record
  | .clear key => RetryState.clear records key

inductive LifecycleCall where
  | prepare (t : DlqTransition)
  | markDlqCommitted (source : RetryKey)
  | clear (source : RetryKey)

section

variable (transitions : List DlqTransition)

def LifecycleCall.prepareEvent (t : DlqTransition) : KeyedEvent DlqTransition :=
  .upsert ⟨t.source, if ⟨t.source, .dlqCommitted⟩ ∈ transitions then .dlqCommitted else t.phase⟩

def LifecycleCall.event :
    LifecycleCall → Option (KeyedEvent DlqTransition)
  | .prepare t => some (prepareEvent transitions t)
  | .markDlqCommitted source =>
    if transitions.any fun u => u.source = source
    then some (prepareEvent transitions ⟨source, .dlqCommitted⟩) else none
  | .clear source => removeEvent DlqTransition.source transitions source

def LifecycleCall.apply : LifecycleCall → List DlqTransition
  | .prepare t => Lifecycle.prepare transitions t
  | .markDlqCommitted source => Lifecycle.markDlqCommitted transitions source
  | .clear source => Lifecycle.clear transitions source

end

theorem RetryCall.event_apply (records : List RetryEntry) (c : RetryCall) :
    ((c.event records).map (KeyedEvent.apply RetryRecord.key records)).getD records =
      c.apply records := by
  cases c with
  | schedule record => rfl
  | clear key => exact removeEvent_apply RetryRecord.key records key

theorem LifecycleCall.event_apply (transitions : List DlqTransition) (c : LifecycleCall) :
    ((c.event transitions).map (KeyedEvent.apply DlqTransition.source transitions)).getD
      transitions = c.apply transitions := by
  cases c with
  | prepare t => rfl
  | markDlqCommitted source =>
    rw [LifecycleCall.event, LifecycleCall.apply, Lifecycle.markDlqCommitted]
    split <;> rfl
  | clear source => exact removeEvent_apply DlqTransition.source transitions source

namespace KeyedStore

section Works

variable {V C : Type} (key : V → RetryKey) (event : List V → C → Option (KeyedEvent V))
  (apply : List V → C → List V)

/-- Every call of a sequence returns `Ok`, and after each part of it the files hold the map that
the part leaves. -/
def Works (cs : List C) : Prop :=
  (∀ ok ∈ empty.results key event cs, ok) ∧
    ∀ n, ((empty.after key event (cs.take n)).stored key).value = (cs.take n).foldl apply []

variable {key event apply}

section

variable (happly : ∀ records c, ((event records c).map (KeyedEvent.apply key records)).getD records
  = apply records c)

include happly

theorem records_after (s : KeyedStore V) (cs : List C) :
    (s.after key event cs).records = cs.foldl apply s.records := by
  induction cs generalizing s with
  | nil => rfl
  | cons c cs ih => rw [List.foldl_cons, ← happly, ← records_call]; exact ih _

theorem works_iff (cs : List C) : Works key event apply cs ↔ Fits key event [] 0 cs := by
  rw [Works, results_ok_iff]
  refine and_iff_left fun n => ?_
  rw [(Saved.empty.after (cs.take n)).value, records_after happly]
  rfl

end

end Works

/-- **Exactly which sequences of calls work**, for both stores. -/
theorem stores_work_iff (calls : List RetryCall) (calls' : List LifecycleCall) :
    (Works RetryRecord.key (fun rs c => c.event rs) RetryCall.apply calls ↔
      Fits RetryRecord.key (fun rs c => c.event rs) [] 0 calls) ∧
    (Works DlqTransition.source (fun ts c => c.event ts) LifecycleCall.apply calls' ↔
      Fits DlqTransition.source (fun ts c => c.event ts) [] 0 calls') :=
  ⟨works_iff RetryCall.event_apply calls, works_iff LifecycleCall.event_apply calls'⟩

theorem not_fits_schedule (record : RetryEntry) {records : List RetryEntry} {n m : Nat}
    (hlimit : compactOps ≤ n + m + 1) : ¬Fits RetryRecord.key (fun rs c => RetryCall.event rs c)
      records n (List.replicate (m + 1) (.schedule record)) := by
  induction m generalizing records n with
  | zero => grind [Fits, RetryCall.event, KeyedEvent.apply]
  | succ m ih =>
    rw [List.replicate_succ, Fits]
    grind [RetryCall.event, KeyedEvent.apply]

/-- The 1024th call that schedules the same message fails. -/
theorem schedule_fails_at_limit : ¬Works RetryRecord.key (fun rs c => c.event rs) RetryCall.apply
    (List.replicate compactOps (.schedule ⟨⟨"orders", 0, 0, 1#128⟩, ⟨"orders", 1, 0⟩⟩)) := by
  rw [works_iff RetryCall.event_apply]
  exact not_fits_schedule _ (le_refl compactOps)

end KeyedStore

end BetterMQ
