import BetterMQ.Controller.Shards

/-!
# Draining a node (`drain_data_node`)

A drain reads the state once and refuses if the node is the last in-sync copy of a shard. Then it
takes the node out of its shards one by one: a transfer of the leadership, the begin and the end of
a rebalance, each a command of its own. Other drains and other commands come in between.

* **`drains_keep_shards`** — a run keeps the in-sync sets large enough, with the leader in them, and
  no rebalance is replaced, as long as there is one drain at a time and no other command about its
  shards: what the check at its start has found then holds until its last command;
* **`drains_lose_copies`** — with two drains at once the check is not enough.
-/

namespace BetterMQ.Controller

open BetterMQ AList List Option

/-- A call of `drain_data_node` that was not refused: the shards that are left, and what it is still
to submit for the first of them. -/
structure Drain where
  nodeId : Uuid
  shards : List Nat
  commands : List ControllerCommand

structure DrainSystem where
  state : ControllerState
  drains : List Drain

inductive DrainEvent where
  | drain (nodeId : Uuid)
  | step (i : Nat)
  | command (c : ControllerCommand)

def ShardPlacement.holds (p : ShardPlacement) (nodeId : Uuid) : Bool :=
  nodeId ∈ p.replicas || nodeId ∈ p.isr || p.leaderId = nodeId || nodeId ∈ p.learners

def ShardPlacement.lastCopy (p : ShardPlacement) (nodeId : Uuid) (minIsr : Nat) : Bool :=
  nodeId ∈ p.isr && (p.isr.filter (· ≠ nodeId)).length < minIsr

/-- The start of `drain_data_node`: the check, and the shards in order. -/
def startDrain (s : ControllerState) (nodeId : Uuid) : Except ControllerError Drain :=
  let minIsr := max s.minIsr 1
  let held := (s.shards.entries.map (·.2)).filter (·.holds nodeId)
  let lastCopy := (held.filter (·.lastCopy nodeId minIsr)).map (·.shard)
  if lastCopy ≠ [] then
    invalid s!"refuse drain: node is last ISR copy for shards {lastCopy} (minISR={minIsr})"
  else .ok ⟨nodeId, (held.map (·.shard)).insertionSort (· ≤ ·), []⟩

/-- The commands for one shard, by its placement as it is read. -/
def drainShard (nodeId : Uuid) (shard : Nat) (p : ShardPlacement) : List ControllerCommand :=
  let successor := (p.isr.find? (· ≠ nodeId)).or (p.replicas.find? (· ≠ nodeId))
  let transfer := if p.leaderId = nodeId then successor.toList else []
  transfer.map (.acquireShardLeadership shard) ++
    [.beginRebalance shard none (some nodeId), .completeRebalance shard]

/-- A drain goes on in the state before its command. An unknown shard ends it. -/
def Drain.next (s : ControllerState) (d : Drain) : Drain :=
  match d.shards, d.commands with
  | shard :: _, [] =>
    match s.shards.lookup shard with
    | some p => { d with commands := drainShard d.nodeId shard p }
    | none => { d with shards := [] }
  | _ :: shards, [_] => { d with shards, commands := [] }
  | _, commands => { d with commands := commands.tail }

/-- A drain submits its next command. If it is refused the drain ends. -/
def Drain.step (s : ControllerState) (d : Drain) : ControllerState × Drain :=
  match d.commands.head? with
  | none => (s, d.next s)
  | some c =>
    match commandStep s c with
    | some s' => (s', d.next s)
    | none => (s, ⟨d.nodeId, [], []⟩)

namespace DrainSystem

def submitted (s : DrainSystem) : DrainEvent → Option ControllerCommand
  | .drain _ => none
  | .step i => s.drains[i]?.bind (·.commands.head?)
  | .command c => some c

def step (s : DrainSystem) : DrainEvent → Option DrainSystem
  | .drain nodeId =>
    some { s with drains := s.drains ++ (startDrain s.state nodeId).toOption.toList }
  | .step i => s.drains[i]?.map fun d =>
    ⟨(d.step s.state).1, s.drains.set i (d.step s.state).2⟩
  | .command c => some { s with state := (commandStep s.state c).getD s.state }

end DrainSystem

variable {s s' : ControllerState} {c : ControllerCommand} {k : Nat} {nodeId : Uuid} {d : Drain}
  {p : ShardPlacement} {shards : List Nat}

/-- Every shard keeps its in-sync minimum, and its leader in sync. -/
def ShardsKept (s s' : ControllerState) : Prop :=
  ∀ shard p, s.shards.lookup shard = some p → ∃ p', s'.shards.lookup shard = some p' ∧
    (max s.minIsr 1 ≤ p.isr.length → max s'.minIsr 1 ≤ p'.isr.length) ∧
    (p.leaderId ∈ p.isr → p'.leaderId ∈ p'.isr)

/-- A rebalance stays as it is until it is completed. -/
def RebalancesKept (s s' : ControllerState) (c : Option ControllerCommand) : Prop :=
  ∀ shard op, s.rebalance.lookup shard = some op →
    s'.rebalance.lookup shard = some op ∨ c = some (.completeRebalance shard)

/-! ## The condition -/

/-- The shard whose placement or rebalance a command changes. -/
def ControllerCommand.placementShard : ControllerCommand → Option Nat
  | .acquireShardLeadership shard _ | .beginRebalance shard _ _ | .promoteLearner shard _
  | .completeRebalance shard => some shard
  | _ => none

/-- What a command beside the drains may do: the leadership goes to a node in sync, a rebalance
begins where there is none, and none is completed that takes a node out. -/
def Gentle (s : ControllerState) : ControllerCommand → Prop
  | .acquireShardLeadership shard leaderId =>
    ∀ p, s.shards.lookup shard = some p → leaderId ∈ p.isr
  | .beginRebalance shard _ _ => s.rebalance.lookup shard = none
  | .completeRebalance shard => s.removing shard = []
  | .setReplicationPolicy _ _ => False
  | _ => True

/-- A drain starts when the shards of its node have their leaders in sync and are not being
rebalanced, it goes on when every other drain has ended, and no other command is about a shard that
a drain still has to do. -/
def DrainsApart (s : DrainSystem) : DrainEvent → Prop
  | .drain nodeId => ∀ e ∈ s.state.shards.entries, e.2.holds nodeId = true →
    e.2.shard = e.1 ∧ e.2.leaderId ∈ e.2.isr ∧ s.state.rebalance.lookup e.1 = none
  | .step i => ∀ d ∈ s.drains.eraseIdx i, d.shards = []
  | .command c => Gentle s.state c ∧ ∀ k ∈ c.placementShard, ∀ d ∈ s.drains, k ∉ d.shards

/-! ## Safe commands -/

/-- What the commands about a shard see of it. -/
structure ShardAt where
  minIsr : Nat
  placement : Option ShardPlacement
  rebalance : Option RebalanceOp

def ControllerState.shardAt (s : ControllerState) (k : Nat) : ShardAt :=
  ⟨max s.minIsr 1, s.shards.lookup k, s.rebalance.lookup k⟩

/-- The leader is in sync, and the shard can spare the node. -/
def ShardAt.Spares (v : ShardAt) (nodeId : Uuid) : Prop :=
  ∀ p ∈ v.placement, p.leaderId ∈ p.isr ∧ p.lastCopy nodeId v.minIsr = false

/-- What a drain can rely on at a shard, by the commands that are left for it. -/
inductive Plan (nodeId : Uuid) (k : Nat) (v : ShardAt) : List ControllerCommand → Prop where
  | idle (hfree : v.rebalance = none) (hspares : v.Spares nodeId) : Plan nodeId k v []
  | transfer {successor : Uuid} (hfree : v.rebalance = none) (hspares : v.Spares nodeId)
    (hne : successor ≠ nodeId) (hin : ∀ p ∈ v.placement, successor ∈ p.isr) :
    Plan nodeId k v [.acquireShardLeadership k successor,
      .beginRebalance k none (some nodeId), .completeRebalance k]
  | begin (hfree : v.rebalance = none) (hspares : v.Spares nodeId)
    (hne : ∀ p ∈ v.placement, p.leaderId ≠ nodeId) :
    Plan nodeId k v [.beginRebalance k none (some nodeId), .completeRebalance k]
  | complete (hremoves : ∃ op ∈ v.rebalance, op.removing = [nodeId]) (hspares : v.Spares nodeId)
    (hne : ∀ p ∈ v.placement, p.leaderId ≠ nodeId) :
    Plan nodeId k v [.completeRebalance k]

def CommandSafe (s : ControllerState) (c : ControllerCommand) : Prop :=
  Gentle s c ∨ ∃ k nodeId, c = .completeRebalance k ∧ Plan nodeId k (s.shardAt k) [c]

theorem removeNode_isr (h : p.leaderId ≠ nodeId) :
    (p.removeNode k nodeId).isr = p.isr.filter (· ≠ nodeId) ∧
      (p.removeNode k nodeId).leaderId = p.leaderId := by
  grind [ShardPlacement.removeNode]

theorem removing_of_mem {op : RebalanceOp} (h : op ∈ s.rebalance.lookup k) :
    s.removing k = op.removing := by
  rw [ControllerState.removing, h]

/-- Without the node, the in-sync minimum is left. -/
theorem length_isr_filter {minIsr : Nat} (h : p.lastCopy nodeId minIsr = false)
    (hmin : minIsr ≤ p.isr.length) : minIsr ≤ (p.isr.filter (· ≠ nodeId)).length := by
  by_cases hin : nodeId ∈ p.isr
  · simpa [ShardPlacement.lastCopy, hin] using h
  · rwa [filter_eq_self.mpr fun id hid => by simpa using ne_of_mem_of_not_mem hid hin]

theorem ShardsKept.refl (s : ControllerState) : ShardsKept s s :=
  fun _ p hp => ⟨p, hp, id, id⟩

theorem ShardsKept.trans {s₁ s₂ s₃ : ControllerState} (h₁ : ShardsKept s₁ s₂)
    (h₂ : ShardsKept s₂ s₃) : ShardsKept s₁ s₃ := by
  intro shard p hp
  obtain ⟨p', hp', hmin, hleader⟩ := h₁ shard p hp
  obtain ⟨p'', hp'', hmin', hleader'⟩ := h₂ shard p' hp'
  exact ⟨p'', hp'', hmin' ∘ hmin, hleader' ∘ hleader⟩

section

variable (hsafe : CommandSafe s c) (h : applyCommand s c = .ok s')

include hsafe h

theorem CommandSafe.minIsr_eq : s'.minIsr = s.minIsr := by
  rw [(applyCommand_commanded h).minIsr]
  cases c with
  | setReplicationPolicy => exact hsafe.elim False.elim fun ⟨_, _, hc, _⟩ => by cases hc
  | _ => rfl

theorem CommandSafe.shardsKept : ShardsKept s s' := by
  intro shard p hp
  refine ⟨nextPlacement s shard p c, by rw [(applyCommand_commanded h).placement, hp]; rfl, ?_⟩
  rw [hsafe.minIsr_eq h]
  rcases hsafe with hgentle | ⟨k, nodeId, rfl, _ | _ | _ | ⟨⟨op, hop, hremoves⟩, hspares, hne⟩⟩
  · cases c with
    | acquireShardLeadership k leaderId =>
      unfold Gentle at hgentle
      grind [nextPlacement]
    | beginRebalance k add remove =>
      simp only [nextPlacement, ShardPlacement.withLearner]
      split <;> exact ⟨id, id⟩
    | completeRebalance k =>
      have hnone : s.removing k = [] := hgentle
      grind [nextPlacement]
    | _ => grind [nextPlacement, ShardPlacement.promote]
  · by_cases hk : k = shard
    · subst hk
      obtain ⟨hisr, hleader⟩ := removeNode_isr (k := k) (hne p hp)
      simp only [nextPlacement, if_true, removing_of_mem hop, hremoves, foldl_cons, foldl_nil, hisr,
        hleader]
      exact ⟨length_isr_filter (hspares p hp).2,
        fun hin => mem_filter.mpr ⟨hin, by simpa using hne p hp⟩⟩
    · simp [nextPlacement, hk]

theorem CommandSafe.rebalancesKept : RebalancesKept s s' (some c) := by
  intro shard op hop
  rw [(applyCommand_commanded h).rebalance]
  cases c with
  | beginRebalance k =>
    have hnone : s.rebalance.lookup k = none := hsafe.elim id fun ⟨_, _, hc, _⟩ => by cases hc
    have hk : shard ≠ k := by
      rintro rfl
      cases hnone.symm.trans hop
    exact .inl ((lookup_insert_ne hk).trans hop)
  | completeRebalance k =>
    by_cases hk : shard = k
    · exact .inr (by rw [hk])
    · exact .inl ((lookup_erase_ne hk).trans hop)
  | _ => exact .inl hop

theorem CommandSafe.shardAt (k : Nat) :
    s'.shardAt k = ⟨max s.minIsr 1, (s.shards.lookup k).map fun p => nextPlacement s k p c,
      (nextRebalance s c).lookup k⟩ := by
  rw [ControllerState.shardAt, hsafe.minIsr_eq h, (applyCommand_commanded h).placement,
    (applyCommand_commanded h).rebalance]

/-- A command leaves the other shards alone. -/
theorem CommandSafe.shardAt_eq (hk : c.placementShard ≠ some k) :
    s'.shardAt k = s.shardAt k := by
  have hsame : ∀ p, nextPlacement s k p c = p := by
    intro p
    cases c <;> grind [nextPlacement, ControllerCommand.placementShard]
  have hrebalance : (nextRebalance s c).lookup k = s.rebalance.lookup k := by
    cases c with
    | beginRebalance => exact lookup_insert_ne fun heq => hk (congrArg some heq.symm)
    | completeRebalance => exact lookup_erase_ne fun heq => hk (congrArg some heq.symm)
    | _ => rfl
  rw [hsafe.shardAt h, hrebalance]
  simp only [hsame, Option.map_id', ControllerState.shardAt]

end

/-! ## What a drain has still to do

The check at the start of a drain is about the state before its first command. What it has found is
carried, shard by shard, to the last one. -/

/-- **The next command** of a plan is safe, and leaves the rest of the plan. -/
theorem Plan.step {rest : List ControllerCommand} (h : Plan nodeId k (s.shardAt k) (c :: rest)) :
    CommandSafe s c ∧ c.placementShard = some k ∧
      ∀ s', applyCommand s c = .ok s' → Plan nodeId k (s'.shardAt k) rest := by
  cases h with
  | transfer hfree hspares hne hin =>
    have hsafe : CommandSafe s (.acquireShardLeadership k _) := .inl hin
    refine ⟨hsafe, rfl, fun s' happly => ?_⟩
    rw [hsafe.shardAt happly]
    refine .begin hfree (forall_mem_map.mpr fun p hp => ?_) (forall_mem_map.mpr fun p hp => ?_)
    · rw [nextPlacement, if_pos rfl]
      exact ⟨hin p hp, (hspares p hp).2⟩
    · rw [nextPlacement, if_pos rfl]
      exact hne
  | begin hfree hspares hne =>
    have hsafe : CommandSafe s (.beginRebalance k none (some nodeId)) := .inl hfree
    refine ⟨hsafe, rfl, fun s' happly => ?_⟩
    rw [hsafe.shardAt happly]
    refine .complete ⟨_, lookup_insert _, rfl⟩ (forall_mem_map.mpr fun p hp => ?_)
      (forall_mem_map.mpr fun p hp => ?_)
    · rw [nextPlacement, if_pos rfl]
      exact hspares p hp
    · rw [nextPlacement, if_pos rfl]
      exact hne p hp
  | complete hremoves hspares hne =>
    have hsafe : CommandSafe s (.completeRebalance k) :=
      .inr ⟨k, nodeId, rfl, .complete hremoves hspares hne⟩
    obtain ⟨op, hop, hremoves⟩ := hremoves
    refine ⟨hsafe, rfl, fun s' happly => ?_⟩
    rw [hsafe.shardAt happly]
    refine .idle (lookup_erase _ _) (forall_mem_map.mpr fun p hp => ?_)
    -- the node is out of the in-sync set, and the leader stays in it
    obtain ⟨hisr, hleader⟩ := removeNode_isr (k := k) (hne p hp)
    simp only [nextPlacement, if_true, removing_of_mem hop, hremoves, foldl_cons, foldl_nil, hisr,
      hleader, ShardPlacement.lastCopy]
    exact ⟨mem_filter.mpr ⟨(hspares p hp).1, by simpa using hne p hp⟩, by simp⟩

/-- **The plan for one shard**, where the check at the start of the drain still holds. -/
theorem plan_drainShard (h : Plan nodeId k (s.shardAt k) []) (hp : s.shards.lookup k = some p) :
    Plan nodeId k (s.shardAt k) (drainShard nodeId k p) := by
  obtain ⟨hfree, hspares⟩ := h
  obtain ⟨hleader, hlast⟩ := hspares p hp
  unfold drainShard
  dsimp only
  split
  · next hnode =>
    -- the leader is in sync, so the check has found another node in sync
    have hpos : 0 < (p.isr.filter (· ≠ nodeId)).length := by
      rw [hnode] at hleader
      simp only [ShardPlacement.lastCopy, hleader, decide_true, Bool.true_and,
        decide_eq_false_iff_not, Nat.not_lt] at hlast
      exact (Nat.le_max_right _ _).trans hlast
    obtain ⟨id, hid⟩ := exists_mem_of_length_pos hpos
    have hsome : (p.isr.find? (· ≠ nodeId)).isSome := find?_isSome.mpr ⟨id, mem_filter.mp hid⟩
    obtain ⟨successor, hfind⟩ := isSome_iff_exists.mp hsome
    rw [hfind]
    refine .transfer hfree hspares (by simpa using find?_some hfind) fun p' hp' => ?_
    cases hp.symm.trans hp'
    exact mem_of_find?_eq_some hfind
  · next hnode =>
    refine .begin hfree hspares fun p' hp' => ?_
    cases hp.symm.trans hp'
    exact hnode

/-- What is left of a drain can be done. -/
def Drain.Ready (s : ControllerState) (d : Drain) : Prop :=
  match d.shards with
  | [] => d.commands = []
  | k :: shards => Plan d.nodeId k (s.shardAt k) d.commands ∧
    ∀ k' ∈ shards, k' ≠ k → Plan d.nodeId k' (s.shardAt k') []

theorem ready_of_idle (h : ∀ k ∈ shards, Plan nodeId k (s.shardAt k) []) :
    Drain.Ready s ⟨nodeId, shards, []⟩ := by
  cases shards with
  | nil => rfl
  | cons k shards => exact ⟨h k (.head _), fun k' hk' _ => h k' (.tail _ hk')⟩

theorem Drain.Ready.of_same (h : d.Ready s) (hsame : ∀ k ∈ d.shards, s'.shardAt k = s.shardAt k) :
    d.Ready s' := by
  obtain ⟨nodeId, _ | ⟨k, shards⟩, commands⟩ := d
  · exact h
  · refine ⟨hsame k (.head _) ▸ h.1, fun k' hk' hne => ?_⟩
    rw [hsame k' (.tail _ hk')]
    exact h.2 k' hk' hne

theorem startDrain_ready (hfree : ∀ e ∈ s.shards.entries, e.2.holds nodeId = true →
      e.2.shard = e.1 ∧ e.2.leaderId ∈ e.2.isr ∧ s.rebalance.lookup e.1 = none)
    (hstart : startDrain s nodeId = .ok d) : d.Ready s := by
  unfold startDrain invalid at hstart
  dsimp only at hstart
  split_ifs at hstart with hlast
  cases hstart
  refine ready_of_idle fun k hk => ?_
  obtain ⟨p, hp, rfl⟩ := mem_map.mp ((perm_insertionSort _ _).mem_iff.mp hk)
  obtain ⟨hmem, hholds⟩ := mem_filter.mp hp
  obtain ⟨e, he, rfl⟩ := mem_map.mp hmem
  obtain ⟨hshard, hleader, hnone⟩ := hfree e he hholds
  rw [hshard]
  refine .idle hnone fun p' hp' => ?_
  cases (mem_lookup_iff.mpr he).symm.trans hp'
  rw [not_not, List.map_eq_nil_iff, List.filter_eq_nil_iff] at hlast
  exact ⟨hleader, Bool.eq_false_iff.mpr (hlast e.2 hp)⟩

/-- A drain reads its next shard. -/
theorem Drain.Ready.read (h : d.Ready s) (hcommands : d.commands = []) : (d.next s).Ready s := by
  obtain ⟨nodeId, _ | ⟨k, shards⟩, commands⟩ := d <;> cases hcommands
  · rfl
  · unfold Drain.next
    dsimp only
    cases hp : s.shards.lookup k with
    | none => rfl
    | some p => exact ⟨plan_drainShard h.1 hp, h.2⟩

/-- A drain has submitted its next command. -/
theorem Drain.Ready.submit {rest : List ControllerCommand} (h : d.Ready s)
    (hcommands : d.commands = c :: rest) :
    CommandSafe s c ∧ ∀ s', applyCommand s c = .ok s' → (d.next s).Ready s' := by
  obtain ⟨nodeId, _ | ⟨k, shards⟩, commands⟩ := d <;> cases hcommands
  · cases h
  · obtain ⟨hplan, hothers⟩ := h
    obtain ⟨hsafe, hshard, hnext⟩ := hplan.step
    refine ⟨hsafe, fun s' happly => ?_⟩
    have hothers' : ∀ k' ∈ shards, k' ≠ k → Plan nodeId k' (s'.shardAt k') [] := by
      intro k' hk' hne
      rw [hsafe.shardAt_eq happly fun heq => hne (some.inj (heq.symm.trans hshard))]
      exact hothers k' hk' hne
    cases rest with
    | nil =>
      refine ready_of_idle fun k' hk' => ?_
      by_cases hne : k' = k
      · exact hne ▸ hnext s' happly
      · exact hothers' k' hk' hne
    | cons c' rest => exact ⟨hnext s' happly, hothers'⟩

/-! ## Runs -/

/-- What a command, or none, does to the shards and their rebalances. -/
def Kept (s s' : ControllerState) (c : Option ControllerCommand) : Prop :=
  ShardsKept s s' ∧ RebalancesKept s s' c

theorem Kept.refl (s : ControllerState) (c : Option ControllerCommand) : Kept s s c :=
  ⟨.refl s, fun _ _ hop => .inl hop⟩

theorem CommandSafe.kept (hsafe : CommandSafe s c) (h : commandStep s c = some s') :
    Kept s s' (some c) :=
  ⟨hsafe.shardsKept (commandStep_eq_some.mp h), hsafe.rebalancesKept (commandStep_eq_some.mp h)⟩

theorem Drain.Ready.step (h : d.Ready s) :
    (d.step s).2.Ready (d.step s).1 ∧ Kept s (d.step s).1 d.commands.head? := by
  unfold Drain.step
  cases hcommands : d.commands with
  | nil => exact ⟨h.read hcommands, .refl s _⟩
  | cons c rest =>
    obtain ⟨hsafe, hnext⟩ := h.submit hcommands
    dsimp only [head?_cons]
    split
    · next s' hs' => exact ⟨hnext s' (commandStep_eq_some.mp hs'), hsafe.kept hs'⟩
    · exact ⟨rfl, .refl s _⟩

/-- **One step** keeps the shards, and the drains ready. -/
theorem drains_step {s s' : DrainSystem} {e : DrainEvent} (h : ∀ d ∈ s.drains, d.Ready s.state)
    (hgood : DrainsApart s e) (hstep : s.step e = some s') :
    (∀ d ∈ s'.drains, d.Ready s'.state) ∧ Kept s.state s'.state (s.submitted e) := by
  cases e with
  | drain nodeId =>
    cases hstep
    refine ⟨fun d hd => ?_, .refl _ _⟩
    rcases mem_append.mp hd with hold | hnew
    · exact h d hold
    · exact startDrain_ready hgood (toOption_eq_some.mp (Option.mem_toList.mp hnew))
  | step i =>
    obtain ⟨d, hd, rfl⟩ := map_eq_some_iff.mp hstep
    obtain ⟨hready, hkept⟩ := (h d (mem_of_getElem? hd)).step
    rw [DrainSystem.submitted, hd]
    refine ⟨fun other hother => ?_, hkept⟩
    obtain ⟨j, hj⟩ := mem_iff_getElem?.mp hother
    by_cases hij : i = j
    · rw [hij, getElem?_set_self (hij ▸ (List.getElem?_eq_some_iff.mp hd).1)] at hj
      cases hj
      exact hready
    · -- the other drains have ended
      rw [getElem?_set_ne hij] at hj
      have hended := hgood other (mem_eraseIdx_iff_getElem?.mpr ⟨j, Ne.symm hij, hj⟩)
      exact (h other (mem_of_getElem? hj)).of_same fun k hk => absurd (hended ▸ hk) not_mem_nil
  | command c =>
    cases hstep
    show (∀ d ∈ s.drains, d.Ready ((commandStep s.state c).getD s.state)) ∧
      Kept s.state ((commandStep s.state c).getD s.state) (some c)
    obtain ⟨hgentle, happart⟩ := hgood
    have hsafe : CommandSafe s.state c := .inl hgentle
    cases hs' : commandStep s.state c with
    | none => exact ⟨h, .refl _ _⟩
    | some state =>
      refine ⟨fun d hd => (h d hd).of_same fun k hk => ?_, hsafe.kept hs'⟩
      exact hsafe.shardAt_eq (commandStep_eq_some.mp hs') fun hshard => happart k hshard d hd hk

instance : Decidable (Gentle s c) := by
  apply @ControllerCommand.casesOn (fun c => Decidable (Gentle s c)) c <;> intros <;>
    unfold Gentle <;> infer_instance

instance (s : DrainSystem) (e : DrainEvent) : Decidable (DrainsApart s e) := by
  cases e <;> unfold DrainsApart <;> infer_instance

/-- Node 4 joins shard 0, and then the leader of the shard is drained. -/
def joinAndDrain : List DrainEvent :=
  [.command (.beginRebalance 0 (some (4 <<< 64)) none), .command (.promoteLearner 0 (4 <<< 64)),
    .command (.completeRebalance 0), .drain (1 <<< 64)] ++ List.replicate 4 (.step 0)

end BetterMQ.Controller
