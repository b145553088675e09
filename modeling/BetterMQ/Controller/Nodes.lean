import BetterMQ.Controller.Shards

/-!
# The node registries

Data nodes are kept by UUID, the Raft membership by the first half of it.

* **`registry_consistent`** — the two registries agree as long as no node is registered whose prefix
  belongs to another node, or whose entry has another address;
* **`registries_diverge`** — otherwise they do not.
-/

namespace BetterMQ.Controller

open BetterMQ AList

variable {s s' : ControllerState} {c : ControllerCommand} {nodes : Table Nat ControllerNode}
  {dataNodes : Table Uuid DataNodeRecord}

/-- Every data node has its one membership entry, with its latest address. -/
structure Registered (nodes : Table Nat ControllerNode) (dataNodes : Table Uuid DataNodeRecord) :
    Prop where
  entry : ∀ id node, dataNodes.lookup id = some node →
    ∃ n, nodes.lookup (raftId id) = some n ∧ n.id = id ∧ n.addr = node.addr
  once : ∀ k n, nodes.lookup k = some n → k = raftId n.id

/-- The command leaves the entries of all nodes but the one it registers. -/
def KeepsOthers (s s' : ControllerState) (c : ControllerCommand) : Prop :=
  ∀ node, c = .registerDataNode node →
    (∀ k n, s.nodes.lookup k = some n → n.id ≠ node.id → s'.nodes.lookup k = some n) ∧
      ∀ id ≠ node.id, s'.dataNodes.lookup id = s.dataNodes.lookup id

/-- A node is registered under a prefix of its own, and always at the same address. -/
def RegistrationOk (s : ControllerState) : ControllerCommand → Prop
  | .registerDataNode node => ∀ n, s.nodes.lookup (raftId node.id) = some n →
    n.id = node.id ∧ n.addr = node.addr
  | _ => True

theorem Registered.insert (h : Registered nodes dataNodes) (id : Uuid) (node : DataNodeRecord)
    (hfree : ∀ n, nodes.lookup (raftId id) = some n → n.id = id) :
    Registered (nodes.insert (raftId id) ⟨id, raftId id, node.addr⟩)
      (dataNodes.insert id node) := by
  refine ⟨fun id' node' h' => ?_, fun k n h' => ?_⟩
  · by_cases hid : id' = id
    · subst hid
      rw [lookup_insert] at h'
      cases h'
      exact ⟨_, lookup_insert _, rfl, rfl⟩
    · rw [lookup_insert_ne hid] at h'
      obtain ⟨n, hn, hnid, haddr⟩ := h.entry id' node' h'
      -- the entry of another node has another key
      have hkey : raftId id' ≠ raftId id := fun heq => hid (hnid.symm.trans (hfree n (heq ▸ hn)))
      exact ⟨n, by rwa [lookup_insert_ne hkey], hnid, haddr⟩
  · by_cases hk : k = raftId id
    · subst hk
      rw [lookup_insert] at h'
      cases h'
      rfl
    · rw [lookup_insert_ne hk] at h'
      exact h.once k n h'

theorem Registered.bootstrap {voters : List Uuid} {configs : List NodeConfig}
    {nodes' : Table Nat ControllerNode} (h : Registered nodes dataNodes)
    (hboot : bootstrapNodes configs nodes = .ok nodes') :
    Registered nodes' ((provisionalNodes configs).foldl (fun table node =>
      table.insert node.id { node with controllerVoter := node.id ∈ voters }) dataNodes) := by
  induction configs generalizing nodes dataNodes with
  | nil =>
    cases hboot
    exact h
  | cons config configs ih =>
    rw [bootstrapNodes] at hboot
    refine ih (h.insert config.id _ ?_) ?_ <;> grind

theorem hasNode_iff (id : Uuid) :
    s.hasNode id = true ↔ ∃ k n, s.nodes.lookup k = some n ∧ n.id = id := by
  simp [ControllerState.hasNode, ← mem_lookup_iff]

section

variable (h : Registered s.nodes s.dataNodes)

include h

theorem Registered.markVoter (id : Uuid) (voter : Bool) :
    Registered (s.markVoter id voter).nodes (s.markVoter id voter).dataNodes := by
  unfold ControllerState.markVoter
  split
  · next node hnode =>
    refine ⟨fun id' node' h' => ?_, h.once⟩
    by_cases hid : id' = id
    · subst hid
      rw [lookup_insert] at h'
      cases h'
      exact h.entry id' node hnode
    · rw [lookup_insert_ne hid] at h'
      exact h.entry id' node' h'
  · exact h

theorem Registered.register {node : DataNodeRecord}
    (hok : RegistrationOk s (.registerDataNode node))
    (hstep : applyCommand s (.registerDataNode node) = .ok s') :
    Registered s'.nodes s'.dataNodes ∧ KeepsOthers s s' (.registerDataNode node) := by
  cases hstep
  split
  · next hhas =>
    obtain ⟨k, n, hn, hid⟩ := (hasNode_iff _).mp hhas
    have hkey := h.once k n hn
    subst hkey
    rw [hid] at hn
    obtain ⟨-, haddr⟩ := hok n hn
    refine ⟨⟨fun id' node' h' => ?_, h.once⟩, ?_⟩
    · by_cases hid' : id' = node.id
      · subst hid'
        rw [lookup_insert] at h'
        cases h'
        exact ⟨n, hn, hid, haddr⟩
      · rw [lookup_insert_ne hid'] at h'
        exact h.entry id' node' h'
    · rintro _ ⟨⟩
      exact ⟨fun _ _ hn _ => hn, fun id hid => lookup_insert_ne hid⟩
  · refine ⟨h.insert node.id { node with controllerVoter := decide (node.id ∈ s.controllerVoters) }
      fun n hn => (hok n hn).1, ?_⟩
    rintro _ ⟨⟩
    refine ⟨fun k n hn hne => ?_, fun id hid => lookup_insert_ne hid⟩
    have hkey : k ≠ raftId node.id := by
      rintro rfl
      exact hne (hok n hn).1
    exact (lookup_insert_ne hkey).trans hn

theorem Registered.command (hok : RegistrationOk s c) (hstep : applyCommand s c = .ok s') :
    Registered s'.nodes s'.dataNodes ∧ KeepsOthers s s' c := by
  by_cases hpart : c.part = .registry
  · cases c with
    | registerDataNode node => exact h.register hok hstep
    | addControllerVoter id | removeControllerVoter id =>
      refine ⟨?_, fun _ heq => by cases heq⟩
      rw [applyCommand] at hstep
      split_ifs at hstep <;> cases hstep <;> exact Registered.markVoter (by exact h) id _
    | _ => cases hpart
  · obtain ⟨hnodes, hdata⟩ := (applyCommand_frame hstep).2.2 hpart
    refine ⟨by rwa [hnodes, hdata], ?_⟩
    rintro node rfl
    exact (hpart rfl).elim

end

/-- **Registries over runs**: along a run that meets `RegistrationOk`, the registries agree in every
state, and a registration leaves the entries of other nodes. -/
theorem registry_consistent {config : ClusterConfig} {shardCount : Nat} {shardTerms : Table Nat Nat}
    {scheduler : Option SchedulerLease} {s₀ s : ControllerState} {commands : List ControllerCommand}
    (hboot : ControllerState.fromV1 config shardCount shardTerms scheduler = .ok s₀)
    (hrun : Run commandStep RegistrationOk s₀ commands s) :
    Registered s.nodes s.dataNodes ∧
      ∀ c s', RegistrationOk s c → commandStep s c = some s' → KeepsOthers s s' c := by
  have hs := hrun.invariant (fun s => Registered s.nodes s.dataNodes)
    (fun _ _ _ h hok hstep => (h.command hok (commandStep_eq_some.mp hstep)).1) (by
      obtain ⟨nodes, hnodes, hstate⟩ := bind_eq_ok hboot
      cases hstate
      exact Registered.bootstrap ⟨by simp, by simp⟩ hnodes)
  exact ⟨hs, fun c s' hok hstep => (hs.command hok (commandStep_eq_some.mp hstep)).2⟩

instance : Decidable (RegistrationOk s c) := by
  apply @ControllerCommand.casesOn (fun c => Decidable (RegistrationOk s c)) c <;> intros <;>
    unfold RegistrationOk <;> infer_instance

/-- A data node at the given address. -/
def dataNode (id : Uuid) (addr : String) : DataNodeRecord := ⟨id, addr, none, none, true, false⟩

/-- Node 5 joins, and registers again. -/
theorem registry_consistent_of_join : ∃ s₀ s, Booted s₀ ∧
      Run commandStep RegistrationOk s₀
        [.registerDataNode (dataNode (5 <<< 64) "e"), .registerDataNode (dataNode (5 <<< 64) "e")]
        s ∧ Registered s.nodes s.dataNodes := by
  exact exists₂_and₂_of (by decide +kernel) fun s₀ s hboot hrun =>
    (registry_consistent hboot hrun).1

/-- **A registration overwrites another node's entry, and a new address is not taken over**: node 1
of the cluster gives way to a node with the same prefix, and keeps its address when it moves. -/
theorem registries_diverge :
    (∃ s₀ s n, Booted s₀ ∧
      CommandRun s₀ [.registerDataNode (dataNode (1 <<< 64 ||| 1) "e")] s ∧
      s.nodes.lookup (raftId (1 <<< 64)) = some n ∧ n.id ≠ 1 <<< 64 ∧
      (s.dataNodes.lookup (1 <<< 64 : Uuid)).isSome) ∧
    ∃ s₀ s n, Booted s₀ ∧
      CommandRun s₀ [.registerDataNode (dataNode (1 <<< 64) "e")] s ∧
      s.nodes.lookup (raftId (1 <<< 64)) = some n ∧ n.addr = "a" := by
  decide +kernel

end BetterMQ.Controller
