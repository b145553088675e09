import BetterMQ.Replication.Quorum

/-!
# The fence of a follower

A follower checks the generation of every replicate request against the one it knows for the shard:
the committed term of the controller, or without a controller the number in its state file. It
rejects a lower one and adopts a higher one. Are the generations of the frames it appends
nondecreasing?

* **`appended_generations_nondecreasing`** — they are, in every run in which the requests that a
  follower of a cluster handles at a time are of one generation, and no single frame comes from a
  generation more than 1024 above the stored one;
* **`lower_generations_pass_fence`** — a single frame from further above passes, but its generation
  is not adopted, and the next frame of a lower one passes as well; and a handler that was let in
  before a higher generation appends after it.
-/

namespace BetterMQ

open List Option Prog

/-! ## The known generation -/

/-- Why a replicate request is rejected. -/
inductive FenceError where
  | slateMode
  | reservedGeneration
  | epoch (e : ReplicateError)
  | stale (generation expected : Nat)
  | unknownShard
  | notCommitted (generation term : Nat)
  | stateFile
  | notElected (leaderId : NodeId)
  | jump (expected generation : Nat)
  | notAdopted (generation : Nat)
  | invalidFrame
  | topicMismatch
  | tenantMismatch
  deriving DecidableEq

/-- What a node knows from the controller about the shard. -/
structure ControllerView where
  ready : Bool
  placement : Option Placement
  deriving DecidableEq

/-- `leader_term` of the placement, 0 when there is none. -/
def ControllerView.leaderTerm (view : ControllerView) : Nat :=
  (view.placement.map fun p => p.leaderTerm).getD 0

/-- `ClusterRuntime`, as far as one shard is concerned. -/
structure ClusterRuntime where
  nodes : List NodeId
  shard : Nat
  controller : Option ControllerView
  /-- The generation of the shard in `shard_generations`, in memory and in the state file. -/
  memory : Nat
  disk : Nat
  /-- The leader by ring election. The clock and the health of the peers decide it. -/
  elected : Option NodeId
  deriving DecidableEq

/-- What happens while a request is validated. -/
structure Surroundings where
  /-- The state file can be locked and read. -/
  readable : Bool
  /-- It can be written. -/
  writable : Bool
  /-- What another process raises the generation in the file to, between two reads of it. -/
  raised : Nat
  /-- What the controller applies between two reads of its state. -/
  committed : List ControllerCommand
  deriving DecidableEq

/-- The controller applies a command. -/
def ControllerView.apply (nodes : List NodeId) (shard : Nat) (view : ControllerView)
    (c : ControllerCommand) : ControllerView :=
  { view with placement := view.placement.map fun p => (applyCommand nodes shard p c).getD p }

namespace ClusterRuntime

section

variable (around : Surroundings)

/-- Others act. -/
def disturb (rt : ClusterRuntime) : ClusterRuntime :=
  { rt with
    controller := rt.controller.map fun view =>
      around.committed.foldl (ControllerView.apply rt.nodes rt.shard) view
    disk := max rt.disk around.raised }

def refreshFromDisk (rt : ClusterRuntime) : ClusterRuntime :=
  if around.readable then { rt with memory := rt.disk } else rt

def shardGeneration : Prog ClusterRuntime FenceError Nat := fun rt =>
  match rt.controller with
  | some view => (.ok view.leaderTerm, rt)
  | none => (.ok (rt.refreshFromDisk around).memory, rt.refreshFromDisk around)

def electLeaderForShard : Prog ClusterRuntime FenceError (Option NodeId) :=
  fun rt =>
    match rt.controller with
    | some view =>
      (.ok (if view.ready then view.placement.map fun p => p.leaderId else none), rt)
    | none => (.ok rt.elected, rt.refreshFromDisk around)

end

def maxJump : Nat := 1024

/-- The change `try_observe_shard_generation` makes to the state file, under its lock. -/
def adopt (generation : Nat) (rt : ClusterRuntime) : ClusterRuntime :=
  let next := if rt.disk < generation ∧ generation ≤ satAdd64 rt.disk maxJump then generation
    else rt.disk
  { rt with disk := next, memory := next }

section

variable (around : Surroundings)

def tryObserveShardGeneration (generation : Nat) :
    Prog ClusterRuntime FenceError Nat := fun rt =>
  match rt.controller with
  | some view =>
    match view.placement with
    | none => (.error .unknownShard, rt)
    | some p =>
      if p.leaderTerm ≠ generation then (.error (.notCommitted generation p.leaderTerm), rt)
      else (.ok generation, rt)
  | none =>
    if around.readable && around.writable then shardGeneration around (rt.adopt generation)
    else (.error .stateFile, rt)

/-- The fence of `internal_replicate`. -/
def fenceSingle (generation : Nat) : Prog ClusterRuntime FenceError Unit := do
  let expected ← shardGeneration around
  Prog.check (expected ≤ generation) (.stale generation expected)
  Prog.modify (disturb around)
  if expected < generation then
    -- the generation it ends with is not looked at
    let _ ← tryObserveShardGeneration around generation
    pure ()

def validateReplicationEpoch (leaderId : NodeId) (generation : Nat) :
    Prog ClusterRuntime FenceError Unit := do
  let elected ← electLeaderForShard around
  Prog.check (elected = some leaderId) (.notElected leaderId)
  let expected ← shardGeneration around
  Prog.check (expected ≤ generation) (.stale generation expected)
  Prog.modify (disturb around)
  if expected < generation then
    Prog.check (generation = satAdd64 expected 1) (.jump expected generation)
    let observed ← tryObserveShardGeneration around generation
    Prog.check (observed = generation) (.notAdopted generation)

end

/-! ## What the fence knows -/

/-- The generation the fence compares with. -/
def level (rt : ClusterRuntime) : Nat :=
  match rt.controller with
  | some view => view.leaderTerm
  | none => rt.memory

/-- The memory is an earlier content of the file, and terms are `u64`. -/
structure Sane (rt : ClusterRuntime) : Prop where
  memory : rt.memory ≤ rt.disk
  term : ∀ view ∈ rt.controller, view.leaderTerm < 2 ^ 64

/-- The level rises, and the state stays sane. -/
def Raises (rt rt' : ClusterRuntime) : Prop :=
  rt.Sane → rt'.Sane ∧ rt.level ≤ rt'.level ∧ (rt'.controller = none ↔ rt.controller = none)

theorem Raises.refl (rt : ClusterRuntime) : Raises rt rt := fun h => ⟨h, Nat.le_refl _, Iff.rfl⟩

theorem Raises.trans {a b c : ClusterRuntime} (hab : Raises a b) (hbc : Raises b c) :
    Raises a c := by
  intro h
  obtain ⟨hb, hle, hmode⟩ := hab h
  obtain ⟨hc, hle', hmode'⟩ := hbc hb
  exact ⟨hc, hle.trans hle', hmode'.trans hmode⟩

end ClusterRuntime

variable {nodes : List NodeId} {shard : Nat}

theorem leaderTerm_le_of_applyCommand {p p' : Placement} {c : ControllerCommand}
    (h : applyCommand nodes shard p c = some p') (hterm : p.leaderTerm < 2 ^ 64) :
    p.leaderTerm ≤ p'.leaderTerm ∧ p'.leaderTerm < 2 ^ 64 := by
  cases c with
  | acquireShardLeadership leaderId =>
    rw [applyCommand, ite_none_right_eq_some] at h
    obtain ⟨⟨-, hlt⟩, hp⟩ := h
    cases hp
    exact ⟨Nat.le_succ _, by show p.leaderTerm + 1 < _; omega⟩
  | completeRebalance =>
    cases h
    -- each removal keeps the term or raises it by one, below the end of `u64`
    refine List.foldlRecOn (motive := fun q => p.leaderTerm ≤ q.leaderTerm ∧ q.leaderTerm < 2 ^ 64)
      p.removing (Placement.remove shard) ⟨Nat.le_refl _, hterm⟩ fun q hq id _ => ?_
    unfold Placement.remove
    dsimp only
    split
    · split
      · dsimp only
        omega
      · exact hq
    · exact hq
  | beginRebalance | promoteLearner | setReplicationPolicy =>
    cases h
    exact ⟨Nat.le_refl _, hterm⟩

theorem ControllerView.leaderTerm_le_apply {view : ControllerView} (c : ControllerCommand)
    (hterm : view.leaderTerm < 2 ^ 64) :
    view.leaderTerm ≤ (view.apply nodes shard c).leaderTerm ∧
      (view.apply nodes shard c).leaderTerm < 2 ^ 64 := by
  obtain ⟨ready, placement⟩ := view
  cases placement with
  | none => exact ⟨Nat.le_refl _, hterm⟩
  | some p =>
    show p.leaderTerm ≤ ((applyCommand nodes shard p c).getD p).leaderTerm ∧
      ((applyCommand nodes shard p c).getD p).leaderTerm < 2 ^ 64
    cases hc : applyCommand nodes shard p c with
    | none => exact ⟨Nat.le_refl _, hterm⟩
    | some p' => exact leaderTerm_le_of_applyCommand hc hterm

namespace ClusterRuntime

variable {rt rt' : ClusterRuntime} {around : Surroundings} {generation : Nat} {leaderId : NodeId}

theorem raises_disturb : Raises rt (rt.disturb around) := by
  intro h
  obtain ⟨nodes, shard, controller, memory, disk, elected⟩ := rt
  have hmemory : memory ≤ max disk around.raised := h.memory.trans (Nat.le_max_left _ _)
  cases controller with
  | none => exact ⟨⟨hmemory, nofun⟩, Nat.le_refl _, Iff.rfl⟩
  | some view =>
    obtain ⟨hle, hlt⟩ := List.foldlRecOn (motive := fun (v : ControllerView) =>
      view.leaderTerm ≤ v.leaderTerm ∧ v.leaderTerm < 2 ^ 64) around.committed
      (ControllerView.apply nodes shard) ⟨Nat.le_refl _, h.term view rfl⟩ fun v hv c _ =>
        (v.leaderTerm_le_apply c hv.2).imp_left hv.1.trans
    refine ⟨⟨hmemory, ?_⟩, hle, iff_of_false (some_ne_none _) (some_ne_none _)⟩
    rintro _ ⟨⟩
    exact hlt

theorem raises_refresh (hmode : rt.controller = none) : Raises rt (rt.refreshFromDisk around) := by
  intro h
  unfold refreshFromDisk
  split
  · refine ⟨⟨Nat.le_refl _, h.term⟩, ?_, Iff.rfl⟩
    rw [level, hmode]
    exact h.memory
  · exact ⟨h, Nat.le_refl _, Iff.rfl⟩

theorem shardGeneration_eq (around : Surroundings) (rt : ClusterRuntime) :
    ∃ rt', shardGeneration around rt = (.ok rt'.level, rt') ∧ Raises rt rt' := by
  obtain ⟨nodes, shard, controller, memory, disk, elected⟩ := rt
  cases controller with
  | some view => exact ⟨_, rfl, .refl _⟩
  | none =>
    refine ⟨_, ?_, @raises_refresh _ around rfl⟩
    unfold shardGeneration refreshFromDisk
    dsimp only
    split <;> rfl

/-- An adopted generation raises the level, to the generation itself within reach. -/
theorem raises_adopt (hmode : rt.controller = none) : Raises rt (rt.adopt generation) ∧
    (rt.Sane → generation ≤ satAdd64 rt.memory maxJump →
      generation ≤ (rt.adopt generation).level) := by
  obtain ⟨nodes, shard, controller, memory, disk, elected⟩ := rt
  cases hmode
  unfold adopt satAdd64
  dsimp only
  split
  · next hnew => exact ⟨fun h => ⟨⟨Nat.le_refl _, h.term⟩, h.memory.trans hnew.1.le, Iff.rfl⟩,
      fun _ _ => Nat.le_refl _⟩
  · next hold =>
    refine ⟨fun h => ⟨⟨Nat.le_refl _, h.term⟩, h.memory, Iff.rfl⟩, fun h hreach => ?_⟩
    have hmemory : memory ≤ disk := h.memory
    show generation ≤ disk
    omega

/-- **What an observation leaves.** The level only rises. Without a controller a generation within
reach of the stored one is reached; with one, an observed generation is the term. -/
theorem tryObserve_spec (around : Surroundings) (generation : Nat) (rt : ClusterRuntime) :
    Raises rt (tryObserveShardGeneration around generation rt).2 ∧
      ∀ observed rt', tryObserveShardGeneration around generation rt = (.ok observed, rt') →
        rt.Sane →
        (rt.controller = none → generation ≤ satAdd64 rt.memory maxJump → generation ≤ rt'.level) ∧
        (rt.controller = none → observed = rt'.level) ∧
        (rt.controller ≠ none → generation ≤ rt'.level) := by
  obtain ⟨nodes, shard, controller, memory, disk, elected⟩ := rt
  unfold tryObserveShardGeneration
  rcases controller with _ | ⟨ready, _ | p⟩ <;> dsimp only
  · split
    · obtain ⟨rt₁, hread, hraise⟩ :=
        shardGeneration_eq around (adopt generation ⟨nodes, shard, none, memory, disk, elected⟩)
      obtain ⟨hadopt, hreached⟩ := @raises_adopt ⟨nodes, shard, none, memory, disk, elected⟩
        generation rfl
      rw [hread]
      refine ⟨hadopt.trans hraise, fun observed rt' hok hsane => ?_⟩
      cases hok
      refine ⟨fun _ hreach => ?_, fun _ => rfl, fun hsome => absurd rfl hsome⟩
      obtain ⟨-, hrise, -⟩ := hraise (hadopt hsane).1
      exact (hreached hsane hreach).trans hrise
    · exact ⟨.refl _, nofun⟩
  · exact ⟨.refl _, nofun⟩
  · split
    · exact ⟨.refl _, nofun⟩
    · next hterm =>
      refine ⟨.refl _, fun observed rt' hok _ => ?_⟩
      cases hok
      exact ⟨nofun, nofun, fun _ => (not_not.mp hterm).ge⟩

theorem raises_electLeader : Prog.Keeps Raises (electLeaderForShard around) rt := by
  unfold Prog.Keeps electLeaderForShard
  split
  · exact .refl rt
  · next hmode => exact raises_refresh hmode

theorem raises_shardGeneration : Prog.Keeps Raises (shardGeneration around) rt := by
  obtain ⟨rt', heq, hraise⟩ := shardGeneration_eq around rt
  unfold Prog.Keeps
  rw [heq]
  exact hraise

theorem raises_fenceSingle : Prog.Keeps Raises (fenceSingle around generation) rt := by
  refine .bind Raises.trans raises_shardGeneration fun expected rt₁ _ => ?_
  refine .bind Raises.trans (.check Raises.refl _ _) fun _ rt₂ _ => ?_
  refine .bind Raises.trans raises_disturb fun _ rt₃ _ => ?_
  split
  · refine .bind Raises.trans (tryObserve_spec around generation rt₃).1 fun _ rt₄ _ => ?_
    exact .pure Raises.refl ()
  · exact .pure Raises.refl ()

theorem raises_validateReplicationEpoch :
    Prog.Keeps Raises (validateReplicationEpoch around leaderId generation) rt := by
  refine .bind Raises.trans raises_electLeader fun elected rt₁ _ => ?_
  refine .bind Raises.trans (.check Raises.refl _ _) fun _ rt₂ _ => ?_
  refine .bind Raises.trans raises_shardGeneration fun expected rt₃ _ => ?_
  refine .bind Raises.trans (.check Raises.refl _ _) fun _ rt₄ _ => ?_
  refine .bind Raises.trans raises_disturb fun _ rt₅ _ => ?_
  split
  · refine .bind Raises.trans (.check Raises.refl _ _) fun _ rt₆ _ => ?_
    refine .bind Raises.trans (tryObserve_spec around generation rt₆).1 fun _ rt₇ _ => ?_
    exact .check Raises.refl _ _
  · exact .pure Raises.refl ()

/-- What the two fences share: a generation they let in is not below the level, and what is observed
is read after it was compared. -/
theorem shardGeneration_check {γ : Type} {rest : Nat → Prog ClusterRuntime FenceError γ} {x : γ}
    (hsane : rt.Sane) (h : (do
      let expected ← shardGeneration around
      Prog.check (expected ≤ generation) (.stale generation expected)
      Prog.modify (disturb around)
      rest expected) rt = (.ok x, rt')) :
    ∃ rt₁ rt₂, rt₁.Sane ∧ rt.level ≤ rt₁.level ∧ rt₁.level ≤ generation ∧ Raises rt₁ rt₂ ∧
      rt₂.memory = rt₁.memory ∧ (rt₂.controller = none ↔ rt.controller = none) ∧
      rest rt₁.level rt₂ = (.ok x, rt') := by
  obtain ⟨rt₁, hread, hraise⟩ := shardGeneration_eq around rt
  obtain ⟨hsane₁, hle, hmode⟩ := hraise hsane
  rw [bind_ok hread] at h
  obtain ⟨hnotStale, h⟩ := check_bind_eq_ok h
  have hmode' := (@raises_disturb _ around hsane₁).2.2
  exact ⟨rt₁, _, hsane₁, hle, hnotStale, raises_disturb, rfl, hmode'.trans hmode, h⟩

/-- **The fence of a single frame.** A generation it lets in is not below the level, and the level
reaches it unless it is out of reach of the state file. -/
theorem fenceSingle_ok (hsane : rt.Sane)
    (hreach : rt.controller = none → generation ≤ satAdd64 rt.memory maxJump)
    (h : fenceSingle around generation rt = (.ok (), rt')) :
    rt.level ≤ generation ∧ generation ≤ rt'.level := by
  obtain ⟨rt₁, rt₂, hsane₁, hle, hnotStale, hraise, hmemory, hmode, h⟩ :=
    shardGeneration_check hsane h
  refine ⟨hle.trans hnotStale, ?_⟩
  obtain ⟨hsane₂, hrise, hmode₂⟩ := hraise hsane₁
  split at h
  · obtain ⟨observed, rt₃, hobserve, hpure⟩ := bind_eq_ok h
    cases hpure
    obtain ⟨hfile, -, hterm⟩ := (tryObserve_spec around generation rt₂).2 _ _ hobserve hsane₂
    by_cases hnone : rt₂.controller = none
    · refine hfile hnone (Nat.le_trans (hreach (hmode.mp hnone)) ?_)
      have hmemory' : rt.memory ≤ rt₂.memory := by
        have hnone₁ : rt₁.controller = none := hmode₂.mp hnone
        rw [level, level, hmode.mp hnone, hnone₁] at hle
        rw [hmemory]
        exact hle
      unfold satAdd64
      omega
    · exact hterm hnone
  · next hnotBelow =>
    cases h
    exact Nat.le_trans (Nat.le_of_not_lt hnotBelow) hrise

/-- **The fence of a batch.** -/
theorem validateReplicationEpoch_ok (hsane : rt.Sane)
    (h : validateReplicationEpoch around leaderId generation rt = (.ok (), rt')) :
    rt.level ≤ generation ∧ generation ≤ rt'.level := by
  obtain ⟨elected, rt₀, helect, h⟩ := bind_eq_ok h
  obtain ⟨hsane₀, hle₀, -⟩ := Prog.Keeps.of_eq helect raises_electLeader hsane
  obtain ⟨-, h⟩ := check_bind_eq_ok h
  obtain ⟨rt₁, rt₂, hsane₁, hle, hnotStale, hraise, -, -, h⟩ := shardGeneration_check hsane₀ h
  refine ⟨Nat.le_trans (hle₀.trans hle) hnotStale, ?_⟩
  obtain ⟨hsane₂, hrise, -⟩ := hraise hsane₁
  split at h
  · obtain ⟨-, h⟩ := check_bind_eq_ok h
    obtain ⟨observed, rt₃, hobserve, h⟩ := bind_eq_ok h
    obtain ⟨hadopted, rfl⟩ := check_eq_ok h
    obtain ⟨-, hfile, hterm⟩ := (tryObserve_spec around generation rt₂).2 _ _ hobserve hsane₂
    by_cases hnone : rt₂.controller = none
    · rw [← hfile hnone]
      exact Nat.le_of_eq hadopted.symm
    · exact hterm hnone
  · next hnotBelow =>
    cases h
    exact Nat.le_trans (Nat.le_of_not_lt hnotBelow) hrise

end ClusterRuntime

/-! ## The follower -/

/-- `ReplicateAppendRequest` for the shard; `frame` is what `frame_b64` decodes to. -/
structure ReplicateAppendRequest where
  tenantId : String
  topic : String
  offset : Nat
  frame : Option Bytes
  leaderGeneration : UInt64
  deriving DecidableEq

/-- A request that was let in: its generation and the frames that are left to append. -/
structure FrameHandler where
  generation : Nat
  frames : List (Nat × Item)
  deriving DecidableEq

/-- A node that takes replicate requests of one shard. -/
structure Follower where
  /-- `StorageMode::Slate`. -/
  slate : Bool
  cluster : Option ClusterRuntime
  log : List Item
  removed : List Nat
  handlers : List FrameHandler
  /-- The generations of the frames it accepted, in their order. -/
  accepted : List Nat
  deriving DecidableEq

namespace Follower

/-- A request to a node that may be part of a cluster. -/
abbrev FenceM := Prog (Option ClusterRuntime) FenceError

/-- Run a fence, if the node is part of a cluster. -/
def onCluster (p : Prog ClusterRuntime FenceError Unit) : FenceM Unit
  | some rt => ((p rt).1, some (p rt).2)
  | none => (.ok (), none)

/-- `decode_frame` and the checks of the topic and the tenant. -/
def decodeChecked (c : Codec) (tenantId : String) (topicOk : String → Bool) (bytes : Bytes) :
    Except FenceError Item :=
  match (decodeFrame c bytes).1 with
  | .error _ => .error .invalidFrame
  | .ok item =>
    if topicOk item.1.topic then
      if tenantId = "" ∨ item.1.tenantId = tenantId then .ok item else .error .tenantMismatch
    else .error .topicMismatch

/-- `internal_replicate`, up to the append. -/
def internalReplicate (c : Codec) (slate : Bool) (around : Surroundings)
    (req : ReplicateAppendRequest) : FenceM FrameHandler := do
  Prog.check (slate = false) .slateMode
  Prog.check (req.leaderGeneration.toNat ≠ 2 ^ 64 - 1) .reservedGeneration
  onCluster (ClusterRuntime.fenceSingle around req.leaderGeneration.toNat)
  let item ← Prog.lift (match req.frame with
    | some bytes => decodeChecked c req.tenantId (· = req.topic) bytes
    | none => .error .invalidFrame)
  pure ⟨req.leaderGeneration.toNat, [(req.offset, item)]⟩

/-- The validation of `decode_binary`. -/
def decodeBinary (c : Codec) (req : ReplicateBatchRequest) : Except FenceError Unit :=
  match req.validate c with
  | .ok u => .ok u
  | .error e => .error (.epoch e)

/-- `internal_replicate_batch`, up to the appends. -/
def internalReplicateBatch (c : Codec) (slate : Bool) (around : Surroundings)
    (req : ReplicateBatchRequest) : FenceM FrameHandler := do
  Prog.check (slate = false) .slateMode
  Prog.lift (decodeBinary c req)
  onCluster (ClusterRuntime.validateReplicationEpoch around req.leaderId req.leaderEpoch)
  let items ← Prog.lift (req.frames.mapM
    (decodeChecked c req.tenantId fun topic => req.topic = "" || topic = req.topic))
  pure ⟨req.leaderEpoch, items.zipIdx.map fun (item, i) => (req.firstOffset + i, item)⟩

/-- `append_replicated_frame` at a checked offset; `none` is an error. -/
def appendReplicatedFrame (s : Follower) (offset : Nat) (item : Item) : Option Follower :=
  if offset < s.log.length then
    -- an applied offset is an idempotent success, if it can be read back
    if offset ∉ s.removed ∧ (logIds s.log)[offset]? = some item.1.id then some s else none
  else if s.log.length < offset then none
  else some { s with log := s.log ++ [item] }

inductive Event where
  /-- A single frame arrives and is validated. -/
  | single (around : Surroundings) (req : ReplicateAppendRequest)
  /-- A batch arrives and is validated. -/
  | batch (around : Surroundings) (req : ReplicateBatchRequest)
  /-- A handler appends its next frame. -/
  | append (h : Nat)
  /-- Others change the state file, and the controller applies commands. -/
  | disturb (around : Surroundings)
  /-- `try_bump_shard_generation`. -/
  | bump
  | ready (ready : Bool)
  | elect (leader : Option NodeId)
  | remove (offset : Nat)
  deriving DecidableEq

/-- A request that was let in gets a handler. -/
def handle (s : Follower) (p : FenceM FrameHandler) : Follower :=
  match p s.cluster with
  | (.ok handler, cluster) => { s with cluster := cluster, handlers := s.handlers ++ [handler] }
  | (.error _, cluster) => { s with cluster := cluster }

/-- The generation in the state file goes up by one, below the reserved one. -/
def bumpRuntime (rt : ClusterRuntime) : ClusterRuntime :=
  if rt.controller = none ∧ rt.disk + 1 < 2 ^ 64 - 1 then
    { rt with disk := rt.disk + 1, memory := rt.disk + 1 }
  else rt

/-- The node gains or loses contact with the controller. -/
def setReady (ready : Bool) (rt : ClusterRuntime) : ClusterRuntime :=
  { rt with controller := rt.controller.map fun view => { view with ready := ready } }

def step (c : Codec) (s : Follower) : Event → Option Follower
  | .single around req => some (s.handle (internalReplicate c s.slate around req))
  | .batch around req => some (s.handle (internalReplicateBatch c s.slate around req))
  | .append h =>
    s.handlers[h]?.bind fun handler =>
      match handler.frames with
      | [] => none
      | (offset, item) :: rest =>
        match s.appendReplicatedFrame offset item with
        | some s' => some { s' with
            accepted := s.accepted ++ [handler.generation]
            handlers := if rest = [] then s.handlers.eraseIdx h
              else s.handlers.set h { handler with frames := rest } }
        | none => some { s with handlers := s.handlers.eraseIdx h }
  | .disturb around => some { s with cluster := s.cluster.map (ClusterRuntime.disturb around) }
  | .bump => some { s with cluster := s.cluster.map bumpRuntime }
  | .ready ready => some { s with cluster := s.cluster.map (setReady ready) }
  | .elect elected => some { s with cluster := s.cluster.map fun rt => { rt with elected } }
  | .remove offset => some { s with removed := offset :: s.removed }

/-- A follower before its first request. -/
def fresh (slate : Bool) (cluster : Option ClusterRuntime) (log : List Item) : Follower :=
  ⟨slate, cluster, log, [], [], []⟩

/-- What a step may do: the requests a follower of a cluster handles at a time are of one
generation, and no single frame comes from further above the stored generation than one observation
can adopt. -/
def FenceOk (s : Follower) : Event → Prop
  | .single _ req => (∀ h ∈ s.handlers, h.generation = req.leaderGeneration.toNat) ∧
      ∃ rt ∈ s.cluster,
        rt.controller = none → req.leaderGeneration.toNat ≤ rt.memory + ClusterRuntime.maxJump
  | .batch _ req => (∀ h ∈ s.handlers, h.generation = req.leaderEpoch) ∧ s.cluster ≠ none
  | _ => True

/-- The accepted generations are nondecreasing, the handlers at work come after them, all of one
generation, and the fence has seen them all. -/
structure Fenced (s : Follower) : Prop where
  sorted : s.accepted.Pairwise (· ≤ ·)
  pending : ∀ h ∈ s.handlers, ∀ g ∈ s.accepted, g ≤ h.generation
  alike : ∀ h ∈ s.handlers, ∀ h' ∈ s.handlers, h.generation = h'.generation
  runtime : ∀ rt ∈ s.cluster, rt.Sane ∧ (∀ g ∈ s.accepted, g ≤ rt.level) ∧
    ∀ h ∈ s.handlers, h.generation ≤ rt.level

variable {c : Codec} {s s' : Follower} {e : Event}

theorem Fenced.of_raises (h : Fenced s) {cluster : Option ClusterRuntime}
    (hraise : ∀ rt' ∈ cluster, ∃ rt ∈ s.cluster, ClusterRuntime.Raises rt rt') :
    Fenced { s with cluster := cluster } where
  __ := h
  runtime rt' hrt' := by
    obtain ⟨rt, hrt, hle⟩ := hraise rt' hrt'
    obtain ⟨hsane, haccepted, hhandlers⟩ := h.runtime rt hrt
    obtain ⟨hsane', hrise, -⟩ := hle hsane
    exact ⟨hsane', fun g hg => Nat.le_trans (haccepted g hg) hrise,
      fun x hx => Nat.le_trans (hhandlers x hx) hrise⟩

theorem Fenced.of_map (h : Fenced s) {f : ClusterRuntime → ClusterRuntime}
    (hf : ∀ rt, ClusterRuntime.Raises rt (f rt)) :
    Fenced { s with cluster := s.cluster.map f } := by
  refine h.of_raises fun rt' hrt' => ?_
  obtain ⟨rt, hrt, rfl⟩ := map_eq_some_iff.mp hrt'
  exact ⟨rt, hrt, hf rt⟩

/-- What a request does to a node of a cluster: a generation it lets in is not below the level, and
the level reaches it. -/
def Admits (rt : ClusterRuntime) (generation : Nat) (p : FenceM FrameHandler) : Prop :=
  ∃ r rt', p (some rt) = (r, some rt') ∧ ClusterRuntime.Raises rt rt' ∧
    ∀ handler, r = .ok handler →
      handler.generation = generation ∧ rt.level ≤ generation ∧ generation ≤ rt'.level

theorem Fenced.handle (h : Fenced s) {generation : Nat}
    (hsame : ∀ x ∈ s.handlers, x.generation = generation)
    {p : FenceM FrameHandler} {rt : ClusterRuntime}
    (hcluster : s.cluster = some rt) (hspec : Admits rt generation p) : Fenced (s.handle p) := by
  obtain ⟨r, rt', hp, hraise, hok⟩ := hspec
  obtain ⟨hsane, haccepted, -⟩ := h.runtime rt hcluster
  obtain ⟨hsane', hrise, -⟩ := hraise hsane
  have hafter : Fenced { s with cluster := some rt' } := h.of_raises fun rt₁ hrt₁ => by
    cases hrt₁
    exact ⟨rt, hcluster, hraise⟩
  unfold Follower.handle
  rw [hcluster, hp]
  cases r with
  | error err => exact hafter
  | ok handler =>
    obtain ⟨hgeneration, hlow, hhigh⟩ := hok handler rfl
    have hall : ∀ x ∈ s.handlers ++ [handler], x.generation = generation :=
      forall_mem_append.mpr ⟨hsame, forall_mem_singleton.mpr hgeneration⟩
    refine ⟨h.sorted, fun x hx g hg => ?_, fun x hx y hy => (hall x hx).trans (hall y hy).symm,
      fun rt₁ hrt₁ => ?_⟩
    · rw [hall x hx]
      exact Nat.le_trans (haccepted g hg) hlow
    · cases hrt₁
      refine ⟨hsane', fun g hg => Nat.le_trans (haccepted g hg) hrise, fun x hx => ?_⟩
      rw [hall x hx]
      exact hhigh

namespace Admits

variable {α : Type} {rt : ClusterRuntime} {slate : Bool} {around : Surroundings} {generation : Nat}

/-- Behind a step that leaves the node as it is. -/
theorem after {p : FenceM α} {q : α → FenceM FrameHandler} (hp : Prog.Keeps Eq p (some rt))
    (hq : ∀ a, Admits rt generation (q a)) : Admits rt generation (p >>= q) := by
  rcases hrun : p (some rt) with ⟨e | a, b⟩
  · obtain rfl := Prog.Keeps.of_eq hrun hp
    exact ⟨.error e, rt, bind_error hrun, .refl rt, nofun⟩
  · obtain rfl := Prog.Keeps.of_eq hrun hp
    obtain ⟨r, rt', heq, hrest⟩ := hq a
    exact ⟨r, rt', (bind_ok hrun).trans heq, hrest⟩

/-- The fence, and what is decoded behind it. -/
theorem fence {p : Prog ClusterRuntime FenceError Unit} {r : Except FenceError α}
    {f : α → FrameHandler} (hf : ∀ a, (f a).generation = generation)
    (hraise : Prog.Keeps ClusterRuntime.Raises p rt)
    (hok : ∀ rt', p rt = (.ok (), rt') → rt.level ≤ generation ∧ generation ≤ rt'.level) :
    Admits rt generation (do
      onCluster p
      let a ← Prog.lift r
      pure (f a)) := by
  rcases hrun : p rt with ⟨e | _, rt'⟩
  · refine ⟨.error e, rt', bind_error ?_, Prog.Keeps.of_eq hrun hraise, nofun⟩
    simp only [onCluster, hrun]
  · have hpassed : onCluster p (some rt) = (.ok (), some rt') := by simp only [onCluster, hrun]
    cases r with
    | error e =>
      exact ⟨.error e, rt', bind_ok hpassed, Prog.Keeps.of_eq hrun hraise, nofun⟩
    | ok a =>
      refine ⟨.ok (f a), rt', bind_ok hpassed, Prog.Keeps.of_eq hrun hraise, ?_⟩
      rintro handler ⟨⟩
      exact ⟨hf a, hok rt' hrun⟩

theorem internalReplicate {req : ReplicateAppendRequest} (hsane : rt.Sane)
    (hreach : rt.controller = none →
      req.leaderGeneration.toNat ≤ rt.memory + ClusterRuntime.maxJump) :
    Admits rt req.leaderGeneration.toNat (internalReplicate c slate around req) := by
  refine .after (.check Eq.refl _ _) fun _ => .after (.check Eq.refl _ _) fun _ => ?_
  refine .fence (fun _ => rfl) ClusterRuntime.raises_fenceSingle fun rt' =>
    ClusterRuntime.fenceSingle_ok hsane fun hnone => ?_
  have hlt := req.leaderGeneration.toNat_lt
  have hle := hreach hnone
  unfold satAdd64
  omega

theorem internalReplicateBatch {req : ReplicateBatchRequest} (hsane : rt.Sane) :
    Admits rt req.leaderEpoch (internalReplicateBatch c slate around req) := by
  refine .after (.check Eq.refl _ _) fun _ => .after (.lift Eq.refl _) fun _ => ?_
  exact .fence (fun _ => rfl) ClusterRuntime.raises_validateReplicationEpoch fun rt' =>
    ClusterRuntime.validateReplicationEpoch_ok hsane

end Admits

theorem appendReplicatedFrame_same {offset : Nat} {item : Item}
    (h : s.appendReplicatedFrame offset item = some s') :
    s'.cluster = s.cluster ∧ s'.handlers = s.handlers ∧ s'.accepted = s.accepted := by
  unfold appendReplicatedFrame at h
  split at h
  · split at h
    · cases h
      exact ⟨rfl, rfl, rfl⟩
    · cases h
  · split at h
    · cases h
    · cases h
      exact ⟨rfl, rfl, rfl⟩

theorem Fenced.of_handler (h : Fenced s) {handler : FrameHandler} (hmem : handler ∈ s.handlers)
    {t : Follower} (hcluster : t.cluster = s.cluster)
    (hold : ∀ x ∈ t.handlers, ∃ y ∈ s.handlers, x.generation = y.generation)
    (haccepted : t.accepted = s.accepted ∨ t.accepted = s.accepted ++ [handler.generation]) :
    Fenced t := by
  have hlast : ∀ g ∈ t.accepted, g ∈ s.accepted ∨ g = handler.generation := by
    intro g hg
    rcases haccepted with heq | heq
    · exact .inl (heq ▸ hg)
    · rw [heq] at hg
      exact (mem_append.mp hg).imp_right mem_singleton.mp
  have hgen : ∀ x ∈ t.handlers, x.generation = handler.generation := by
    intro x hx
    obtain ⟨y, hy, hxy⟩ := hold x hx
    exact hxy.trans (h.alike y hy handler hmem)
  refine ⟨?_, fun x hx g hg => ?_, fun x hx y hy => (hgen x hx).trans (hgen y hy).symm,
    fun rt hrt => ?_⟩
  · rcases haccepted with heq | heq
    · rw [heq]
      exact h.sorted
    · rw [heq]
      refine pairwise_append.mpr ⟨h.sorted, pairwise_singleton _ _, fun g hg x hx => ?_⟩
      rw [mem_singleton.mp hx]
      exact h.pending handler hmem g hg
  · rw [hgen x hx]
    rcases hlast g hg with hg | rfl
    · exact h.pending handler hmem g hg
    · exact Nat.le_refl _
  · obtain ⟨hsane, hlevel, hhandlers⟩ := h.runtime rt (hcluster ▸ hrt)
    refine ⟨hsane, fun g hg => ?_, fun x hx => ?_⟩
    · rcases hlast g hg with hg | rfl
      · exact hlevel g hg
      · exact hhandlers handler hmem
    · rw [hgen x hx]
      exact hhandlers handler hmem

theorem Fenced.append (h : Fenced s) {i : Nat} (hstep : s.step c (.append i) = some s') :
    Fenced s' := by
  obtain ⟨handler, hhandler, hstep⟩ := bind_eq_some_iff.mp hstep
  have hmem : handler ∈ s.handlers := mem_of_getElem? hhandler
  have herase : ∀ x ∈ s.handlers.eraseIdx i, ∃ y ∈ s.handlers, x.generation = y.generation :=
    fun x hx => ⟨x, mem_of_mem_eraseIdx hx, rfl⟩
  split at hstep
  · cases hstep
  · next offset item rest hframes =>
    split at hstep
    · next s₁ happend =>
      cases hstep
      obtain ⟨hcluster, -⟩ := appendReplicatedFrame_same happend
      refine h.of_handler hmem hcluster ?_ (.inr rfl)
      split
      · exact herase
      · intro x hx
        rcases mem_or_eq_of_mem_set hx with hold | rfl
        · exact ⟨x, hold, rfl⟩
        · exact ⟨handler, hmem, rfl⟩
    · cases hstep
      exact h.of_handler hmem rfl herase (.inl rfl)

theorem raises_bump (rt : ClusterRuntime) : ClusterRuntime.Raises rt (bumpRuntime rt) := by
  intro h
  unfold bumpRuntime
  split
  · next hbump =>
    refine ⟨⟨Nat.le_refl _, h.term⟩, ?_, Iff.rfl⟩
    rw [ClusterRuntime.level, hbump.1]
    exact Nat.le_succ_of_le h.memory
  · exact ⟨h, Nat.le_refl _, Iff.rfl⟩

theorem raises_setReady (ready : Bool) (rt : ClusterRuntime) :
    ClusterRuntime.Raises rt (setReady ready rt) := by
  intro h
  obtain ⟨nodes, shard, controller, memory, disk, elected⟩ := rt
  cases controller with
  | none => exact ⟨⟨h.memory, nofun⟩, Nat.le_refl _, Iff.rfl⟩
  | some view =>
    refine ⟨⟨h.memory, ?_⟩, Nat.le_refl _, ?_⟩
    · rintro view' ⟨⟩
      exact h.term view rfl
    · exact iff_of_false (some_ne_none _) (some_ne_none _)

theorem Fenced.step (h : Fenced s) (hok : FenceOk s e) (hstep : s.step c e = some s') :
    Fenced s' := by
  cases e with
  | single around req =>
    cases hstep
    obtain ⟨hsame, rt, hrt, hreach⟩ := hok
    exact h.handle hsame hrt (.internalReplicate (h.runtime rt hrt).1 hreach)
  | batch around req =>
    cases hstep
    obtain ⟨hsame, hsome⟩ := hok
    obtain ⟨rt, hrt⟩ := ne_none_iff_exists'.mp hsome
    exact h.handle hsame hrt (.internalReplicateBatch (h.runtime rt hrt).1)
  | append i => exact h.append hstep
  | disturb around =>
    cases hstep
    exact h.of_map fun _ => ClusterRuntime.raises_disturb
  | bump =>
    cases hstep
    exact h.of_map raises_bump
  | ready ready =>
    cases hstep
    exact h.of_map (raises_setReady ready)
  | elect leader =>
    cases hstep
    exact h.of_map fun _ hsane => ⟨⟨hsane.memory, hsane.term⟩, Nat.le_refl _, Iff.rfl⟩
  | remove offset =>
    cases hstep
    exact ⟨h.sorted, h.pending, h.alike, h.runtime⟩

/-- Nothing happens around a request. -/
def quiet : Surroundings := ⟨true, true, 0, []⟩

/-- A single frame of the record `id` at an offset. -/
def plainFrame (generation : UInt64) (offset id : Nat) : ReplicateAppendRequest :=
  ⟨"t", "orders", offset, some (frameBytes Bincode.codec (plainRecord id, [])), generation⟩

/-- A batch of one record. -/
def plainBatch (leader : NodeId) (epoch offset id : Nat) : ReplicateBatchRequest :=
  let frames := [frameBytes Bincode.codec (plainRecord id, [])]
  ⟨"t", "orders", 0, leader, epoch, offset, 1, frames,
    ReplicateBatchRequest.crcForFrames Bincode.codec frames⟩

/-- A follower without a controller, with an empty log and no stored generation; node 1 leads. -/
def fileFollower : Follower := fresh false (some ⟨[1, 2], 0, none, 0, 0, some 1⟩) []

instance (s : Follower) (e : Event) : Decidable (FenceOk s e) := by
  cases e <;> unfold FenceOk <;> infer_instance

/-- A frame of generation 5, a stale one, and a batch of generation 6. -/
def risingRequests : List Event :=
  [.single quiet (plainFrame 5 0 10), .append 0, .single quiet (plainFrame 4 1 11),
    .batch quiet (plainBatch 1 6 1 12), .append 0]

/-- A follower with a controller; node 1 leads in term 1. -/
def controlledFollower : Follower :=
  fresh false (some ⟨[1, 2, 3], 0, some ⟨true, some ⟨1, 1, [1, 2, 3], 2, []⟩⟩, 0, 0, none⟩) []

end Follower

end BetterMQ
