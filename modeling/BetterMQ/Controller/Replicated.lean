import Mathlib.Logic.Function.Basic
import BetterMQ.Controller.Shards

/-!
# The replicated controller (`broker-raft-meta/src/controller.rs`)

Every node runs an OpenRaft member over one key of its local store. A command is applied by reading
the local store, computing a whole new `ControllerState`, and writing it back through Raft
(`submit_local`, `write_state_local`); a background task writes the bootstrap state while the local
store is empty (`spawn_state_sync`). The read comes before `ensure_linearizable`.

OpenRaft is taken at its word: the committed values are one growing list, a node's store holds a
prefix of it, `ensure_linearizable` returns only when the store has caught up, and a write whose
caller was given an error may still be committed.

* **`acknowledged_fold`** — while every write commits on the value it was computed from, the last
  committed value is the fold of the acknowledged commands;
* **`stale_submit_loses_update`** — a submit on a new leader that reads a store behind the committed
  values overwrites an acknowledged command.
-/

namespace BetterMQ.Controller

open BetterMQ Function Option

/-! ## The machine -/

/-- Where a running `write_state_local` stands. -/
inductive WriteStage where
  /-- Before `ensure_linearizable` has returned. -/
  | computed
  | linearized
  /-- In `client_write`: Raft has the entry. -/
  | proposed
  deriving DecidableEq

/-- A value on its way into the store, and the value it was computed from. -/
structure StateWrite where
  /-- The command of a submit; the background task has none. -/
  command : Option ControllerCommand
  read : ControllerState
  state : ControllerState
  stage : WriteStage

/-- The two tasks of a node that write: a submit, behind `command_lock`, and the background task. -/
inductive WriteTask where
  | submit
  | bootstrap
  deriving DecidableEq

/-- `OpenRaftController` on one node. -/
structure ControllerReplica where
  /-- How many of the committed values the local store has applied. -/
  applied : Nat
  /-- The in-memory `state`. -/
  memory : ControllerState
  /-- `is_leader_with_quorum`, which a deposed leader may still believe. -/
  leading : Bool
  writes : WriteTask → Option StateWrite

structure ControllerCluster where
  /-- The committed values of the state key, oldest first. -/
  log : List ControllerState
  leader : Option Uuid
  nodes : Uuid → ControllerReplica
  /-- Entries Raft may still commit although their caller was given an error. -/
  orphans : List StateWrite
  /-- The commands whose caller was given `Ok`, in the order they were committed. -/
  acknowledged : List ControllerCommand

/-- Every node opens with the bootstrap state and an empty store. -/
def ControllerCluster.start (bootstrap : ControllerState) : ControllerCluster where
  log := []
  leader := none
  nodes := fun _ => ⟨0, bootstrap, false, fun _ => none⟩
  orphans := []
  acknowledged := []

/-- The replicated state. -/
def ControllerCluster.value (bootstrap : ControllerState) (s : ControllerCluster) :
    ControllerState := s.log.getLastD bootstrap

def ControllerCluster.readStoreState (s : ControllerCluster) (n : Uuid) : Option ControllerState :=
  (s.log.take (s.nodes n).applied).getLast?

def ControllerCluster.update (s : ControllerCluster) (n : Uuid)
    (f : ControllerReplica → ControllerReplica) : ControllerCluster :=
  { s with nodes := Function.update s.nodes n (f (s.nodes n)) }

def ControllerReplica.setWrite (task : WriteTask) (w : Option StateWrite) (r : ControllerReplica) :
    ControllerReplica := { r with writes := Function.update r.writes task w }

/-- The fields `submit_local` fills in from the clock and the current Raft term. -/
def ControllerCommand.stamp (now : Int) (term : Nat) : ControllerCommand → ControllerCommand
  | .acquireScheduler holder _ ttlMs => .acquireScheduler holder now ttlMs
  | .acceptFanout id tenantId acceptanceHash payloadJson createdAtMs _ =>
    .acceptFanout id tenantId acceptanceHash payloadJson
      (if createdAtMs ≤ 0 then now else createdAtMs) term
  | .claimFanout id ownerId expectedVersion _ ttlMs _ =>
    .claimFanout id ownerId expectedVersion now ttlMs term
  | .updateFanout id ownerId expectedVersion payloadJson completed _ _ =>
    .updateFanout id ownerId expectedVersion payloadJson completed now term
  | .garbageCollectFanout ids completedBeforeMs _ =>
    .garbageCollectFanout ids completedBeforeMs term
  | c => c

inductive ControllerEvent where
  | elect (n : Uuid)
  | stepDown (n : Uuid)
  /-- The store of a node applies the next committed value. -/
  | apply (n : Uuid)
  /-- The background task copies the store to memory. -/
  | syncState (n : Uuid)
  /-- The background task finds an empty store on a leader. -/
  | beginBootstrap (n : Uuid)
  | submit (n : Uuid) (command : ControllerCommand) (now : Int) (term : Nat)
  /-- `ensure_linearizable` returns. -/
  | linearize (n : Uuid) (task : WriteTask)
  | propose (n : Uuid) (task : WriteTask)
  /-- `client_write` returns `Ok`. -/
  | commit (n : Uuid) (task : WriteTask)
  /-- `ensure_linearizable` or `client_write` returns an error. -/
  | fail (n : Uuid) (task : WriteTask)
  /-- Raft commits an entry whose caller was given an error. -/
  | commitOrphan (i : Nat)
  /-- A forwarded `submit` returns the state some leader answered. -/
  | learn (n : Uuid) (i : Nat)
  | restart (n : Uuid)

/-- The write of a task, when it has come to this stage. -/
def ControllerCluster.writeAt (s : ControllerCluster) (n : Uuid) (task : WriteTask)
    (stage : WriteStage) : Option StateWrite :=
  ((s.nodes n).writes task).filter fun w => w.stage = stage

/-- The entries of the dying tasks of a node that Raft has. -/
def ControllerReplica.proposals (r : ControllerReplica) : List StateWrite :=
  ((r.writes .submit).toList ++ (r.writes .bootstrap).toList).filter fun w => w.stage = .proposed

section

variable (bootstrap : ControllerState) (s : ControllerCluster)

/-- One step of the cluster; `none` means that the step is not enabled. -/
def controllerStep :
    ControllerEvent → Option ControllerCluster
  | .elect n => some { s.update n fun r => { r with leading := true } with leader := some n }
  | .stepDown n =>
    some
      { s.update n fun r => { r with leading := false } with
        leader := if s.leader = some n then none else s.leader }
  | .apply n =>
    if (s.nodes n).applied < s.log.length then
      some (s.update n fun r => { r with applied := r.applied + 1 })
    else none
  | .syncState n =>
    (s.readStoreState n).map fun state => s.update n fun r => { r with memory := state }
  | .beginBootstrap n =>
    let r := s.nodes n
    if s.readStoreState n = none ∧ r.leading = true ∧ (r.writes .bootstrap).isNone then
      some (s.update n (.setWrite .bootstrap (some ⟨none, r.memory, r.memory, .computed⟩)))
    else none
  | .submit n command now term =>
    let r := s.nodes n
    if r.leading = true ∧ (r.writes .submit).isNone then
      let command := command.stamp now term
      let read := (s.readStoreState n).getD r.memory
      match applyCommand read command with
      | .ok state =>
        some (s.update n (.setWrite .submit (some ⟨some command, read, state, .computed⟩)))
      | .error _ => some s
    else none
  | .linearize n task => do
    let w ← s.writeAt n task .computed
    if s.leader = some n then
      some (s.update n fun r =>
        { r.setWrite task (some { w with stage := .linearized }) with applied := s.log.length })
    else none
  | .propose n task => do
    let w ← s.writeAt n task .linearized
    some (s.update n (.setWrite task (some { w with stage := .proposed })))
  | .commit n task => do
    let w ← s.writeAt n task .proposed
    some
      { s.update n fun r =>
          { r.setWrite task none with memory := w.state, applied := s.log.length + 1 } with
        log := s.log ++ [w.state]
        acknowledged := s.acknowledged ++ w.command.toList }
  | .fail n task => do
    let w ← (s.nodes n).writes task
    some
      { s.update n (.setWrite task none) with
        orphans := if w.stage = .proposed then s.orphans ++ [w] else s.orphans }
  | .commitOrphan i => do
    let w ← s.orphans[i]?
    some { s with log := s.log ++ [w.state], orphans := s.orphans.eraseIdx i }
  | .learn n i => do
    let state ← s.log[i]?
    some (s.update n fun r => { r with memory := state })
  | .restart n =>
    some
      { s.update n fun r =>
          { r with memory := bootstrap, leading := false, writes := fun _ => none } with
        leader := if s.leader = some n then none else s.leader
        orphans := s.orphans ++ (s.nodes n).proposals }

/-- A write commits on the value it was computed from, and a write whose caller was given an error
changes nothing if it commits. -/
def Current : ControllerEvent → Prop
  | .commit n task => ∀ w, (s.nodes n).writes task = some w → w.read = s.value bootstrap
  | .commitOrphan i => ∀ w, s.orphans[i]? = some w → w.state = s.value bootstrap
  | _ => True

end

/-! ## No acknowledged command is lost -/

/-- The value of a write is what its command makes of the value it read. -/
def StateWrite.Computed (w : StateWrite) : Prop :=
  match w.command with
  | some c => applyCommand w.read c = .ok w.state
  | none => w.state = w.read

/-- The replicated state is the fold of the acknowledged commands, and every write under way is
computed from what it read. -/
structure Folded (bootstrap : ControllerState) (s : ControllerCluster) : Prop where
  value : s.acknowledged.foldlM applyCommand bootstrap = .ok (s.value bootstrap)
  writes : ∀ n task w, (s.nodes n).writes task = some w → w.Computed

variable {r : ControllerReplica} {s s' : ControllerCluster} {n : Uuid}

theorem writes_update (h : ∀ n task w, (s.nodes n).writes task = some w → w.Computed)
    (hnodes : s'.nodes = Function.update s.nodes n r)
    (hwrites : ∀ task w, r.writes task = some w → w.Computed) :
    ∀ m task w, (s'.nodes m).writes task = some w → w.Computed := by
  intro m task w hw
  rw [hnodes] at hw
  by_cases hm : m = n
  · subst hm
    rw [update_self] at hw
    exact hwrites task w hw
  · rw [update_of_ne hm] at hw
    exact h m task w hw

variable {bootstrap : ControllerState}

theorem Folded.update (h : Folded bootstrap s) (hlog : s'.log = s.log)
    (hack : s'.acknowledged = s.acknowledged) (hnodes : s'.nodes = Function.update s.nodes n r)
    (hwrites : ∀ task w, r.writes task = some w → w.Computed) : Folded bootstrap s' := by
  refine ⟨?_, writes_update h.writes hnodes hwrites⟩
  rw [hack, ControllerCluster.value, hlog]
  exact h.value

variable {task : WriteTask} {w : StateWrite}

section

variable (hold : ∀ task w, r.writes task = some w → w.Computed)

include hold

theorem setWrite_computed {new : Option StateWrite} (hnew : ∀ w, new = some w → w.Computed) :
    ∀ task' w, (r.setWrite task new).writes task' = some w → w.Computed := by
  intro task' w hw
  unfold ControllerReplica.setWrite at hw
  dsimp only at hw
  by_cases htask : task' = task
  · subst htask
    rw [update_self] at hw
    exact hnew w hw
  · rw [update_of_ne htask] at hw
    exact hold task' w hw

theorem clearWrite_computed :
    ∀ task' w, (r.setWrite task none).writes task' = some w → w.Computed :=
  setWrite_computed hold fun w hw => absurd hw.symm (some_ne_none w)

end

theorem writeAt_eq_some {stage : WriteStage} (h : s.writeAt n task stage = some w) :
    (s.nodes n).writes task = some w :=
  (filter_eq_some_iff.mp h).1

theorem value_append {state : ControllerState} {log : List ControllerState}
    (h : s.log = log ++ [state]) : s.value bootstrap = state := by
  rw [ControllerCluster.value, h, List.getLastD_concat]

/-- A write that commits on the value it was computed from extends the fold. -/
theorem StateWrite.Computed.fold (h : w.Computed) {acknowledged : List ControllerCommand}
    (hfold : acknowledged.foldlM applyCommand bootstrap = .ok w.read) :
    (acknowledged ++ w.command.toList).foldlM applyCommand bootstrap = .ok w.state := by
  rw [List.foldlM_append, hfold]
  unfold StateWrite.Computed at h
  cases hcommand : w.command with
  | none =>
    rw [hcommand] at h
    rw [h]
    rfl
  | some c =>
    rw [hcommand] at h
    change (applyCommand w.read c >>= fun s => List.foldlM applyCommand s []) = _
    rw [h]
    rfl

theorem Folded.step {e : ControllerEvent} (h : Folded bootstrap s)
    (hcurrent : Current bootstrap s e) (hstep : controllerStep bootstrap s e = some s') :
    Folded bootstrap s' := by
  cases e with
  | elect n | stepDown n =>
    cases hstep
    refine h.update rfl rfl rfl ?_
    exact h.writes n
  | apply n =>
    obtain ⟨-, hrest⟩ := ite_none_right_eq_some.mp hstep
    cases hrest
    refine h.update rfl rfl rfl ?_
    exact h.writes n
  | syncState n =>
    obtain ⟨state, -, rfl⟩ := map_eq_some_iff.mp hstep
    refine h.update rfl rfl rfl ?_
    exact h.writes n
  | beginBootstrap n =>
    obtain ⟨-, hrest⟩ := ite_none_right_eq_some.mp hstep
    cases hrest
    refine h.update rfl rfl rfl ?_
    refine setWrite_computed (h.writes n) ?_
    rintro w ⟨⟩
    rfl
  | submit n command now term =>
    obtain ⟨-, hrest⟩ := ite_none_right_eq_some.mp hstep
    split at hrest
    · next state happly =>
      cases hrest
      refine h.update (n := n) rfl rfl rfl ?_
      refine setWrite_computed (h.writes n) ?_
      rintro w ⟨⟩
      exact happly
    · cases hrest
      exact h
  | linearize n task =>
    obtain ⟨w, hw, hrest⟩ := bind_eq_some_iff.mp hstep
    obtain ⟨-, hsome⟩ := ite_none_right_eq_some.mp hrest
    cases hsome
    refine h.update rfl rfl rfl ?_
    refine setWrite_computed (h.writes n) ?_
    rintro w' ⟨⟩
    exact h.writes n task w (writeAt_eq_some hw)
  | propose n task =>
    obtain ⟨w, hw, hrest⟩ := bind_eq_some_iff.mp hstep
    cases hrest
    refine h.update rfl rfl rfl ?_
    refine setWrite_computed (h.writes n) ?_
    rintro w' ⟨⟩
    exact h.writes n task w (writeAt_eq_some hw)
  | commit n task =>
    obtain ⟨w, hw, hrest⟩ := bind_eq_some_iff.mp hstep
    cases hrest
    have hwrite := writeAt_eq_some hw
    have hread : w.read = s.value bootstrap := hcurrent w hwrite
    refine ⟨?_, writes_update h.writes rfl ?_⟩
    · rw [value_append rfl]
      exact (h.writes n task w hwrite).fold (by rw [hread]; exact h.value)
    · exact clearWrite_computed (h.writes n)
  | fail n task =>
    obtain ⟨w, -, hrest⟩ := bind_eq_some_iff.mp hstep
    cases hrest
    refine h.update rfl rfl rfl ?_
    exact clearWrite_computed (h.writes n)
  | commitOrphan i =>
    obtain ⟨w, hw, hrest⟩ := bind_eq_some_iff.mp hstep
    cases hrest
    refine ⟨?_, h.writes⟩
    rw [value_append rfl, hcurrent w hw]
    exact h.value
  | learn n i =>
    obtain ⟨state, -, hrest⟩ := bind_eq_some_iff.mp hstep
    cases hrest
    refine h.update rfl rfl rfl ?_
    exact h.writes n
  | restart n =>
    cases hstep
    refine h.update rfl rfl rfl ?_
    exact fun _ w hw => absurd hw.symm (some_ne_none w)

/-- **No acknowledged command is lost.** In every run in which each write commits on the value it
was computed from, the replicated state is the fold of the acknowledged commands in the order of
their commits. -/
theorem acknowledged_fold {bootstrap : ControllerState} {events : List ControllerEvent}
    {s : ControllerCluster}
    (hrun : Run (controllerStep bootstrap) (Current bootstrap) (.start bootstrap) events s) :
    s.acknowledged.foldlM applyCommand bootstrap = .ok (s.value bootstrap) := by
  have hfolded : Folded bootstrap s := by
    refine hrun.invariant (Folded bootstrap)
      (fun t e t' h hcurrent hstep => h.step hcurrent hstep) ?_
    exact ⟨rfl, fun _ _ w hw => absurd hw.symm (some_ne_none w)⟩
  exact hfolded.value

instance (bootstrap : ControllerState) (s : ControllerCluster) (e : ControllerEvent) :
    Decidable (Current bootstrap s e) := by
  cases e <;> unfold Current <;> infer_instance

/-- A task writes its value, from `ensure_linearizable` to the answer of `client_write`. -/
def writeThrough (n : Uuid) (task : WriteTask) : List ControllerEvent :=
  [.linearize n task, .propose n task, .commit n task]

/-- The first leader commits the bootstrap state and an advanced catalog epoch. -/
def firstLeader : List ControllerEvent :=
  [.elect (1 <<< 64), .beginBootstrap (1 <<< 64)] ++ writeThrough (1 <<< 64) .bootstrap ++
    .submit (1 <<< 64) .advanceCatalogEpoch 0 1 :: writeThrough (1 <<< 64) .submit

/-- A second leader advances the catalog epoch, after its store has applied this many values. -/
def secondLeader (applied : Nat) : List ControllerEvent :=
  firstLeader ++ List.replicate applied (.apply (2 <<< 64)) ++
    [.elect (2 <<< 64), .submit (2 <<< 64) .advanceCatalogEpoch 0 2] ++
      writeThrough (2 <<< 64) .submit

theorem acknowledged_fold_of_secondLeader : ∃ bootstrap s, Booted bootstrap ∧
      Run (controllerStep bootstrap) (Current bootstrap) (.start bootstrap) (secondLeader 2) s ∧
      s.acknowledged.foldlM applyCommand bootstrap = .ok (s.value bootstrap) := by
  exact exists₂_and₂_of (by decide +kernel) fun bootstrap s _ hrun => acknowledged_fold hrun

/-- **A lost update.** The second leader's store lacks the last committed value when its submit
reads it. Both commands are acknowledged, and one of them is gone. -/
theorem stale_submit_loses_update : ∃ bootstrap s, Booted bootstrap ∧
      AnyRun (controllerStep bootstrap) (.start bootstrap) (secondLeader 1) s ∧
      s.acknowledged = [.advanceCatalogEpoch, .advanceCatalogEpoch] ∧
      (s.value bootstrap).catalogEpoch = 1 ∧
      s.acknowledged.foldlM applyCommand bootstrap ≠ .ok (s.value bootstrap) := by
  decide +kernel

end BetterMQ.Controller
