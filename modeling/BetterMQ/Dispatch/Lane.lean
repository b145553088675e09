import BetterMQ.Partition.Tenants

/-!
# Lanes and their completion index (`broker-partition/src/flow.rs`, `broker-storage/src/indexes.rs`)

A message is delivered in the lane of its group member, queue, flow profile or flow key. For each
tenant, lane and partition the metadata store keeps a cursor and the offsets above it that are
complete; what lies below the cursor is complete without an entry.

* **`DispatchIndex.keeps_mark`**, **`DispatchIndex.keeps_set`** — marking an offset and raising the
  cursor lose no completion.
-/

namespace BetterMQ

open Function List

/-! ## Lanes -/

/-- `flow_lane_owner`; `v5` is `Uuid::new_v5` in the URL namespace. -/
def flowLaneOwner (v5 : String → Uuid) (msg : StoredMessage) : Uuid :=
  match (msg.groupMemberId.or msg.queueId).or msg.flowProfileId with
  | some id => id
  | none => v5 (msg.flowKey.getD msg.topic)

/-- The key under which the progress of the lane is stored. -/
def cursorKey (v5 : String → Uuid) (msg : StoredMessage) : String :=
  uuidString (flowLaneOwner v5 msg)

def deliveryUsesFlowControl (msg : StoredMessage) : Bool :=
  msg.groupMemberId.isSome || msg.flowProfileId.isSome || msg.flowParallelism.isSome ||
    msg.flowRate.isSome || msg.flowKey.isSome

/-- The message has a URL to push to. -/
def hasDestination (msg : StoredMessage) : Bool := msg.destinationUrl.any (· ≠ "")

/-- The tenant in whose lane the worker of a node completes a message. -/
def deliveryTenant (tenant : String) (msg : StoredMessage) : String :=
  if msg.tenantId ≠ "" then msg.tenantId else tenant

/-! ## The completion index -/

/-- The lane of a tenant on a partition. -/
structure LaneId where
  tenantId : String
  /-- `subscription_id` in the metadata store. -/
  cursorKey : String
  partition : UInt32
  deriving DecidableEq

inductive MetaBackend where
  | rocks
  | slate
  /-- One JSON file behind a file lock. -/
  | shared
  deriving DecidableEq

structure DispatchIndex where
  /-- `dispatch_offset`. -/
  cursors : LaneId → Nat
  completed : LaneId → List Nat

namespace DispatchIndex

def empty : DispatchIndex := ⟨fun _ => 0, fun _ => []⟩

section

variable (ix : DispatchIndex) (lane : LaneId) (offset : Nat)

def isDispatchComplete : Bool :=
  offset < ix.cursors lane || offset ∈ ix.completed lane

def markDispatchComplete : DispatchIndex where
  cursors := ix.cursors
  completed := Function.update ix.completed lane
    (if offset ∈ ix.completed lane then ix.completed lane else ix.completed lane ++ [offset])

end

/-- The completion entries that `set_dispatch_offset` deletes. -/
def covered (backend : MetaBackend) (current next : Nat) (entries : List Nat) : List Nat :=
  match backend with
  | .rocks => entries.filter fun o => current ≤ o ∧ o < next
  | .slate => List.range' current (next - current)
  | .shared => entries.filter fun o => o < next

/-- The write of `set_dispatch_offset`. -/
def setDispatchOffset (ix : DispatchIndex) (lane : LaneId) (next : Nat) (deleted : List Nat) :
    DispatchIndex where
  cursors := Function.update ix.cursors lane next
  completed := Function.update ix.completed lane ((ix.completed lane).filter fun o => o ∉ deleted)

variable {ix ix' : DispatchIndex} {lane lane' : LaneId} {offset o next : Nat}

theorem isDispatchComplete_iff :
    ix.isDispatchComplete lane offset = true ↔
      offset < ix.cursors lane ∨ offset ∈ ix.completed lane := by
  simp [isDispatchComplete]

theorem mem_completed_mark :
    o ∈ (ix.markDispatchComplete lane offset).completed lane' ↔
      (lane' = lane ∧ o = offset) ∨ o ∈ ix.completed lane' := by
  unfold markDispatchComplete
  dsimp only
  by_cases hlane : lane' = lane
  · subst hlane
    rw [update_self]
    split
    · next hmem =>
      refine ⟨.inr, ?_⟩
      rintro (⟨-, rfl⟩ | h)
      · exact hmem
      · exact h
    · simp [or_comm]
  · simp [hlane]

theorem lt_of_mem_covered {backend : MetaBackend} {current : Nat} {entries : List Nat}
    (h : o ∈ covered backend current next entries) : o < next := by
  unfold covered at h
  split at h
  · exact (of_decide_eq_true (mem_filter.mp h).2).2
  · obtain ⟨hle, hlt⟩ := mem_range'_1.mp h
    omega
  · exact of_decide_eq_true (mem_filter.mp h).2

/-- Everything that is complete before is complete after. -/
def Keeps (ix ix' : DispatchIndex) : Prop :=
  ∀ lane o, ix.isDispatchComplete lane o = true → ix'.isDispatchComplete lane o = true

theorem Keeps.refl (ix : DispatchIndex) : ix.Keeps ix := fun _ _ h => h

theorem Keeps.trans {ix₁ ix₂ ix₃ : DispatchIndex} (h : ix₁.Keeps ix₂) (h' : ix₂.Keeps ix₃) :
    ix₁.Keeps ix₃ := fun lane o ho => h' lane o (h lane o ho)

theorem complete_mark (ix : DispatchIndex) (lane : LaneId) (offset : Nat) :
    (ix.markDispatchComplete lane offset).isDispatchComplete lane offset = true :=
  isDispatchComplete_iff.mpr (.inr (mem_completed_mark.mpr (.inl ⟨rfl, rfl⟩)))

theorem keeps_mark (ix : DispatchIndex) (lane : LaneId) (offset : Nat) :
    ix.Keeps (ix.markDispatchComplete lane offset) := by
  intro lane' o ho
  rw [isDispatchComplete_iff] at ho ⊢
  exact ho.imp_right fun hmem => mem_completed_mark.mpr (.inr hmem)

theorem keeps_set {deleted : List Nat} (hnext : ix.cursors lane ≤ next)
    (hdeleted : ∀ o ∈ deleted, o < next) : ix.Keeps (ix.setDispatchOffset lane next deleted) := by
  intro lane' o ho
  rw [isDispatchComplete_iff] at ho ⊢
  unfold setDispatchOffset
  by_cases hlane : lane' = lane
  · subst hlane
    dsimp only
    rw [update_self, update_self, mem_filter, decide_eq_true_eq]
    rcases ho with hlt | hmem
    · exact .inl (hlt.trans_le hnext)
    · by_cases hgone : o ∈ deleted
      · exact .inl (hdeleted o hgone)
      · exact .inr ⟨hmem, hgone⟩
  · dsimp only
    rw [update_of_ne hlane, update_of_ne hlane]
    exact ho

end DispatchIndex

end BetterMQ
