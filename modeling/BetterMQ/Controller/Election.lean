import BetterMQ.Controller.State
import BetterMQ.Lib.Run
import Mathlib.Data.Finset.Card
import BetterMQ.Lib.Slots

/-!
# Votes for a controller leader (`broker-raft-meta/src/{epoch,cluster}.rs`, durable mode)

Each controller node keeps a term, its vote in the term and the leader it knows, in memory and in
`controller-epoch.json`. Every operation changes the memory first and then replaces the file, so a
node may restart from a file that is behind what it had in memory.

* **`ControllerEpoch.Follows`** — what every operation keeps: the term does not fall, and within a
  term the vote is not taken back;
* **`Election.Inv.step`** — every vote a node has granted is backed by its file;
* **`votes_elect_one_leader`** — so two quorums of votes in a term are for the same candidate.
-/

namespace BetterMQ.Controller

open BetterMQ Function List Option

/-! ## One node -/

inductive EpochError where
  | io
  | staleTerm (current saw : Nat)
  | voteConflict (term : Nat) (votedFor candidate : Uuid)
  | leaderConflict (term : Nat) (leader candidate : Uuid)
  | termExhausted

structure ControllerVoteRequest where
  term : Nat
  candidateId : Uuid
  clusterGeneration : Nat
  deriving DecidableEq

structure ControllerVoteResponse where
  term : Nat
  voterId : Uuid
  candidateId : Uuid
  granted : Bool
  deriving DecidableEq

structure ControllerLeaderProof where
  term : Nat
  leaderId : Uuid
  clusterGeneration : Nat
  deriving DecidableEq

structure ControllerEpoch where
  currentTerm : Nat
  votedFor : Option Uuid
  leaderId : Option Uuid

namespace ControllerEpoch

/-- What `load` returns without a file. -/
def default : ControllerEpoch := ⟨0, none, none⟩

/-! The operations up to their `store`: the result, and the epoch in memory. An error may leave a
changed epoch behind. -/

section

variable (e : ControllerEpoch)

def beginCampaign (nodeId : Uuid) : Except EpochError Nat × ControllerEpoch :=
  match (checkedAdd64 e.currentTerm 1).filter (· ≠ maxU64) with
  | none => (.error .termExhausted, e)
  | some term => (.ok term, ⟨term, some nodeId, none⟩)

def grantVote (term : Nat) (candidate : Uuid) : Except EpochError Bool × ControllerEpoch :=
  if term < e.currentTerm then (.error (.staleTerm e.currentTerm term), e)
  else
    let e := if term > e.currentTerm then ⟨term, none, none⟩ else e
    match e.leaderId.filter (· ≠ candidate), e.votedFor.filter (· ≠ candidate) with
    | some leader, _ => (.error (.leaderConflict term leader candidate), e)
    | none, some votedFor => (.error (.voteConflict term votedFor candidate), e)
    | none, none => (.ok true, { e with votedFor := some candidate })

def confirmLeader (term : Nat) (candidate : Uuid) : Except EpochError Nat × ControllerEpoch :=
  if term < e.currentTerm then (.error (.staleTerm e.currentTerm term), e)
  else
    -- the leader of an older term is not forgotten here
    let e := if term > e.currentTerm then { e with currentTerm := term, votedFor := some candidate }
      else e
    match e.votedFor.filter (· ≠ candidate), e.leaderId.filter (· ≠ candidate) with
    | some votedFor, _ => (.error (.voteConflict term votedFor candidate), e)
    | none, some leader => (.error (.leaderConflict term leader candidate), e)
    | none, none => (.ok term, { e with votedFor := some candidate, leaderId := some candidate })

def observeTerm (term : Nat) (leader : Uuid) : Except EpochError Nat × ControllerEpoch :=
  if term < e.currentTerm then (.error (.staleTerm e.currentTerm term), e)
  else
    let known := if term = e.currentTerm then e else default
    match known.votedFor.filter (· ≠ leader), known.leaderId.filter (· ≠ leader) with
    | some votedFor, _ => (.error (.voteConflict term votedFor leader), e)
    | none, some existing => (.error (.leaderConflict term existing leader), e)
    | none, none => (.ok term, ⟨term, some leader, some leader⟩)

end

end ControllerEpoch

/-- How the replacement of the file ends. One that fails may have replaced it all the same. -/
inductive StoreOutcome where
  | stored
  | failed (replaced : Bool)

/-- The epoch of one node. -/
structure EpochNode where
  memory : ControllerEpoch
  file : ControllerEpoch

/-- An operation and the `store` at its end. -/
def EpochNode.run {α : Type} (n : EpochNode)
    (op : ControllerEpoch → Except EpochError α × ControllerEpoch) (outcome : StoreOutcome) :
    Except EpochError α × EpochNode :=
  match op n.memory with
  | (.error e, memory) => (.error e, { n with memory := memory })
  | (.ok a, memory) =>
    match outcome with
    | .stored => (.ok a, ⟨memory, memory⟩)
    | .failed replaced => (.error .io, ⟨memory, if replaced then memory else n.file⟩)

/-! ## The runtime of a node -/

def ClusterConfig.nodeCount (c : ClusterConfig) : Nat := max c.nodes.length 1

def ClusterConfig.quorumSize (c : ClusterConfig) : Nat := c.nodeCount / 2 + 1

def ClusterConfig.members (c : ClusterConfig) : List Uuid := c.nodes.map NodeConfig.id

inductive ClusterError where
  | epoch (error : EpochError)
  | controllerQuorum (votes quorum : Nat)
  | staleClusterGeneration (expected saw : Nat)
  | invalidCandidate (id : Uuid)

section Runtime

variable (config : ClusterConfig) (outcome : StoreOutcome)

def beginControllerCampaign (n : EpochNode) :
    Except ClusterError ControllerVoteRequest × EpochNode :=
  let r := n.run (·.beginCampaign config.nodeId) outcome
  ((r.1.mapError .epoch).map fun term => ⟨term, config.nodeId, config.generation⟩, r.2)

section

variable (request : ControllerVoteRequest)

def voteController (n : EpochNode) : Except ClusterError ControllerVoteResponse × EpochNode :=
  if request.clusterGeneration ≠ config.generation then
    (.error (.staleClusterGeneration config.generation request.clusterGeneration), n)
  else if request.candidateId ∉ config.members then
    (.error (.invalidCandidate request.candidateId), n)
  else
    let r := n.run (·.grantVote request.term request.candidateId) outcome
    ((r.1.mapError .epoch).map fun granted =>
      ⟨r.2.memory.currentTerm, config.nodeId, request.candidateId, granted⟩, r.2)

/-- The distinct voters of a quorum proof. -/
def countVoters (responses : List ControllerVoteResponse) : List Uuid :=
  responses.foldl (fun voters response =>
    if response.granted = true ∧ response.term = request.term ∧
        response.candidateId = request.candidateId ∧ response.voterId ∈ config.members then
      voters.insert response.voterId
    else voters) [config.nodeId]

def confirmControllerLeader (responses : List ControllerVoteResponse) (n : EpochNode) :
    Except ClusterError ControllerLeaderProof × EpochNode :=
  if request.candidateId ≠ config.nodeId then
    (.error (.invalidCandidate request.candidateId), n)
  else
    let voters := countVoters config request responses
    if voters.length < config.quorumSize then
      (.error (.controllerQuorum voters.length config.quorumSize), n)
    else
      let r := n.run (·.confirmLeader request.term request.candidateId) outcome
      ((r.1.mapError .epoch).map fun _ =>
        ⟨request.term, request.candidateId, request.clusterGeneration⟩, r.2)

end

def observeControllerLeader (proof : ControllerLeaderProof) (n : EpochNode) :
    Except ClusterError Unit × EpochNode :=
  if proof.clusterGeneration ≠ config.generation then
    (.error (.staleClusterGeneration config.generation proof.clusterGeneration), n)
  else
    let r := n.run (·.observeTerm proof.term proof.leaderId) outcome
    ((r.1.mapError .epoch).map fun _ => (), r.2)

def controllerLeaderProof (n : EpochNode) : Option ControllerLeaderProof :=
  n.memory.leaderId.map fun leaderId => ⟨n.memory.currentTerm, leaderId, config.generation⟩

end Runtime

/-! ## The cluster -/

/-- The nodes of one cluster and the messages between them. A message once sent may arrive any
number of times, at any time, or never. `votes` and `confirmed` are ghosts: who voted for whom in
which term, and who became leader of which term. -/
structure Election where
  node : Uuid → EpochNode
  requests : List ControllerVoteRequest
  responses : List ControllerVoteResponse
  proofs : List ControllerLeaderProof
  votes : List (Uuid × Nat × Uuid)
  confirmed : List (Nat × Uuid)

inductive ElectionEvent where
  | campaign (n : Uuid) (outcome : StoreOutcome)
  | vote (n : Uuid) (request : ControllerVoteRequest) (outcome : StoreOutcome)
  | confirm (n : Uuid) (request : ControllerVoteRequest) (responses : List ControllerVoteResponse)
      (outcome : StoreOutcome)
  | observe (n : Uuid) (proof : ControllerLeaderProof) (outcome : StoreOutcome)
  /-- The node gossips the leader it knows. -/
  | gossip (n : Uuid)
  /-- The process of the node ends, at any point between two operations or inside one whose `store`
  did not return, and another starts. -/
  | restart (n : Uuid)

namespace Election

/-- No node has voted yet. -/
def initial : Election := ⟨fun _ => ⟨.default, .default⟩, [], [], [], [], []⟩

def setNode (s : Election) (n : Uuid) (node : EpochNode) : Election :=
  { s with node := Function.update s.node n node }

/-- `cluster` gives the members; each node may have been started with another generation of it. -/
def configOf (cluster : ClusterConfig) (generation : Uuid → Nat) (n : Uuid) : ClusterConfig :=
  { cluster with nodeId := n, generation := generation n }

variable (cluster : ClusterConfig) (generation : Uuid → Nat)

/-- A step of a member; messages that arrive have been sent. -/
def step (s : Election) : ElectionEvent → Option Election
  | .campaign n outcome =>
    if n ∈ cluster.members then
      let r := beginControllerCampaign (configOf cluster generation n) outcome (s.node n)
      let s := s.setNode n r.2
      match r.1 with
      | .error _ => some s
      | .ok request => some { s with
          requests := s.requests ++ [request]
          votes := s.votes ++ [(n, request.term, n)] }
    else none
  | .vote n request outcome =>
    if n ∈ cluster.members ∧ request ∈ s.requests then
      let r := voteController (configOf cluster generation n) outcome request (s.node n)
      let s := s.setNode n r.2
      match r.1 with
      | .error _ => some s
      | .ok response => some { s with
          responses := s.responses ++ [response]
          votes := if response.granted then s.votes ++ [(n, request.term, request.candidateId)]
            else s.votes }
    else none
  | .confirm n request responses outcome =>
    if n ∈ cluster.members ∧ request ∈ s.requests ∧ responses ⊆ s.responses then
      let config := configOf cluster generation n
      let r := confirmControllerLeader config outcome request responses (s.node n)
      -- the node takes itself for the leader as soon as its memory says so
      let elected := request.candidateId = n ∧
        config.quorumSize ≤ (countVoters config request responses).length ∧
        ((s.node n).memory.confirmLeader request.term request.candidateId).1.toBool
      let s := { s.setNode n r.2 with
        confirmed := if elected then s.confirmed ++ [(request.term, n)] else s.confirmed }
      match r.1 with
      | .error _ => some s
      | .ok proof => some { s with proofs := s.proofs ++ [proof] }
    else none
  | .observe n proof outcome =>
    if n ∈ cluster.members ∧ proof ∈ s.proofs then
      some (s.setNode n (observeControllerLeader (configOf cluster generation n) outcome proof
        (s.node n)).2)
    else none
  | .gossip n =>
    if n ∈ cluster.members then
      some { s with
        proofs := s.proofs ++
          (controllerLeaderProof (configOf cluster generation n) (s.node n)).toList }
    else none
  | .restart n =>
    if n ∈ cluster.members then some (s.setNode n ⟨(s.node n).file, (s.node n).file⟩) else none

end Election

/-! ## Votes that are kept -/

namespace ControllerEpoch

variable {e e' e₁ : ControllerEpoch} {term : Nat} {candidate other : Uuid}

/-- A later epoch: a higher term, or the same with the vote kept. -/
def Follows (e' e : ControllerEpoch) : Prop :=
  e.currentTerm < e'.currentTerm ∨
    e.currentTerm = e'.currentTerm ∧ ∀ v, e.votedFor = some v → e'.votedFor = some v

/-- The epoch of a vote. A later one stands by the vote: it is past the term, or has the vote. -/
def ballot (term : Nat) (candidate : Uuid) : ControllerEpoch := ⟨term, some candidate, none⟩

theorem Follows.refl (e : ControllerEpoch) : e.Follows e := .inr ⟨rfl, fun _ h => h⟩

theorem Follows.trans (h : e₁.Follows e') (h' : e'.Follows e) : e₁.Follows e := by
  rcases h with hlt | ⟨heq, hvote⟩ <;> rcases h' with hlt' | ⟨heq', hvote'⟩
  · exact .inl (by omega)
  · exact .inl (by omega)
  · exact .inl (by omega)
  · exact .inr ⟨by omega, fun v hv => hvote v (hvote' v hv)⟩

theorem Follows.term_le (h : e'.Follows e) : e.currentTerm ≤ e'.currentTerm := by
  rcases h with hlt | ⟨heq, -⟩ <;> omega

theorem eq_of_filter_ne {o : Option Uuid} (h : o.filter (· ≠ candidate) = none)
    (ho : o = some other) : some candidate = some other := by
  subst ho
  by_contra hne
  rw [Option.some.injEq] at hne
  simp [Option.filter, Ne.symm hne] at h

/-- An epoch that may take a vote and stands by another in the term has voted for the same. -/
theorem Follows.eq_of_ballot (h : (ballot term candidate).Follows e)
    (h' : e.Follows (ballot term other)) : other = candidate := by
  rcases h.trans h' with hlt | ⟨-, hvote⟩
  · exact absurd hlt (Nat.lt_irrefl _)
  · exact (Option.some.inj (hvote other rfl)).symm

/-- What an operation can do as a whole: refuse, or take a vote, if the term is new to the epoch or
it has no other vote in it. A leader it then names was known in
the same term, or is the candidate of an operation that `elects`. -/
def Votes {α : Type} (e : ControllerEpoch) (r : Except EpochError α × ControllerEpoch) (a : α)
    (term : Nat) (candidate : Uuid) (elects : Prop) : Prop :=
  (∃ error, r = (.error error, e)) ∨
    ∃ leaderId, r = (.ok a, ⟨term, some candidate, leaderId⟩) ∧ (ballot term candidate).Follows e ∧
      ∀ leader, leaderId = some leader →
        term = e.currentTerm ∧ e.leaderId = some leader ∨ leader = candidate ∧ elects

theorem beginCampaign_votes (e : ControllerEpoch) (nodeId : Uuid) :
    e.Votes (e.beginCampaign nodeId) (e.currentTerm + 1) (e.currentTerm + 1) nodeId False := by
  unfold beginCampaign
  cases hnext : (checkedAdd64 e.currentTerm 1).filter (· ≠ maxU64) with
  | none => exact .inl ⟨_, rfl⟩
  | some next =>
    obtain ⟨hadd, -⟩ := filter_eq_some_iff.mp hnext
    unfold checkedAdd64 at hadd
    split at hadd
    · cases hadd
      exact .inr ⟨none, rfl, .inl (Nat.lt_succ_self _), nofun⟩
    · cases hadd

theorem grantVote_votes (e : ControllerEpoch) (term : Nat) (candidate : Uuid) :
    e.Votes (e.grantVote term candidate) true term candidate False := by
  unfold grantVote
  by_cases hstale : term < e.currentTerm
  · exact .inl ⟨_, if_pos hstale⟩
  · rw [if_neg hstale]
    by_cases hnew : term > e.currentTerm
    · exact .inr ⟨none, by simp [if_pos hnew], .inl hnew, nofun⟩
    · obtain rfl : term = e.currentTerm := by omega
      simp only [if_neg hnew]
      split
      · exact .inl ⟨_, rfl⟩
      · exact .inl ⟨_, rfl⟩
      · next hvote =>
        exact .inr ⟨_, rfl, .inr ⟨rfl, fun v hv => eq_of_filter_ne hvote hv⟩,
          fun _ hleader => .inl ⟨rfl, hleader⟩⟩

/-- The term of a campaign is not ahead of the node that runs it. -/
theorem confirmLeader_votes (candidate : Uuid) (hterm : term ≤ e.currentTerm) :
    e.Votes (e.confirmLeader term candidate) term term candidate True := by
  unfold confirmLeader
  by_cases hstale : term < e.currentTerm
  · exact .inl ⟨_, if_pos hstale⟩
  · obtain rfl : term = e.currentTerm := by omega
    simp only [gt_iff_lt, Nat.lt_irrefl, if_false]
    split
    · exact .inl ⟨_, rfl⟩
    · exact .inl ⟨_, rfl⟩
    · next hvote _ =>
      exact .inr ⟨_, rfl, .inr ⟨rfl, fun v hv => eq_of_filter_ne hvote hv⟩,
        fun _ hleader => .inr ⟨(Option.some.inj hleader).symm, trivial⟩⟩

theorem observeTerm_votes (e : ControllerEpoch) (term : Nat) (leader : Uuid) :
    e.Votes (e.observeTerm term leader) term term leader True := by
  have hnames : ∀ l, some leader = some l → term = e.currentTerm ∧ e.leaderId = some l ∨
      l = leader ∧ True := fun l hl => .inr ⟨(Option.some.inj hl).symm, trivial⟩
  unfold observeTerm
  by_cases hstale : term < e.currentTerm
  · exact .inl ⟨_, if_pos hstale⟩
  · rw [if_neg hstale]
    by_cases hsame : term = e.currentTerm
    · simp only [if_pos hsame]
      split
      · exact .inl ⟨_, rfl⟩
      · exact .inl ⟨_, rfl⟩
      · next hvote _ =>
        exact .inr ⟨_, rfl, .inr ⟨hsame.symm, fun v hv => eq_of_filter_ne hvote hv⟩, hnames⟩
    · have hlater : e.currentTerm < term := by omega
      exact .inr ⟨_, by simp [if_neg hsame, default], .inl hlater, hnames⟩

end ControllerEpoch

namespace EpochNode

/-- The memory takes what the operation made of it; the file keeps its value unless the `store`
replaced it, and only then can the call succeed. -/
theorem run_cases {α : Type} (n : EpochNode)
    (op : ControllerEpoch → Except EpochError α × ControllerEpoch) (outcome : StoreOutcome) :
    (∃ error, n.run op outcome = (.error error, ⟨(op n.memory).2, n.file⟩)) ∨
      ∃ r, n.run op outcome = (r, ⟨(op n.memory).2, (op n.memory).2⟩) ∧
        ∀ a, r = .ok a → (op n.memory).1 = .ok a := by
  unfold run
  rcases op n.memory with ⟨error | a, memory⟩
  · exact .inl ⟨error, rfl⟩
  · rcases outcome with _ | (_ | _)
    · exact .inr ⟨.ok a, rfl, fun _ h => h⟩
    · exact .inl ⟨.io, rfl⟩
    · exact .inr ⟨.error .io, rfl, nofun⟩

end EpochNode

/-! ## The invariant -/

namespace Election

open ControllerEpoch

/-- Every leader the epoch names has been confirmed. -/
def Led (confirmed : List (Nat × Uuid)) (e : ControllerEpoch) : Prop :=
  ∀ leader, e.leaderId = some leader → (e.currentTerm, leader) ∈ confirmed

structure Inv (cluster : ClusterConfig) (s : Election) : Prop where
  newer : ∀ n, (s.node n).memory.Follows (s.node n).file
  backed : ∀ v t c, (v, t, c) ∈ s.votes → (s.node v).file.Follows (ballot t c)
  unique : ∀ v t c c', (v, t, c) ∈ s.votes → (v, t, c') ∈ s.votes → c = c'
  requests : ∀ r ∈ s.requests, (r.candidateId, r.term, r.candidateId) ∈ s.votes
  responses : ∀ r ∈ s.responses, r.granted = true → (r.voterId, r.term, r.candidateId) ∈ s.votes
  quorums : ∀ t n, (t, n) ∈ s.confirmed → ∃ Q ⊆ cluster.members.toFinset,
    cluster.quorumSize ≤ Q.card ∧ ∀ v ∈ Q, (v, t, n) ∈ s.votes
  led : ∀ n, Led s.confirmed (s.node n).memory ∧ Led s.confirmed (s.node n).file
  proofs : ∀ p ∈ s.proofs, (p.term, p.leaderId) ∈ s.confirmed

/-- The invariant, and no file taken back since it was one of `node`. -/
structure Advanced (cluster : ClusterConfig) (node : Uuid → EpochNode) (s : Election) : Prop
    extends Inv cluster s where
  files : ∀ m, (s.node m).file.Follows (node m).file

section Inv

variable {cluster : ClusterConfig} {generation : Uuid → Nat} {s s' : Election} {t : Nat}
  {n c : Uuid}

theorem inv_initial (cluster : ClusterConfig) : Inv cluster initial :=
  ⟨fun _ => .refl _, nofun, nofun, nofun, nofun, nofun, fun _ => ⟨nofun, nofun⟩, nofun⟩

@[simp] theorem setNode_self (s : Election) (n : Uuid) (node : EpochNode) :
    (s.setNode n node).node n = node := update_self ..

section

variable (h : Inv cluster s)

include h

theorem Inv.setNode {node : EpochNode} (hnewer : node.memory.Follows node.file)
    (hkept : node.file.Follows (s.node n).file) (hmemory : Led s.confirmed node.memory)
    (hfile : Led s.confirmed node.file) :
    Advanced cluster s.node (s.setNode n node) where
  newer := (forall_update_iff s.node fun _ node => node.memory.Follows node.file).mpr
    ⟨hnewer, fun m _ => h.newer m⟩
  backed := (forall_update_iff s.node fun v node =>
    ∀ t c, (v, t, c) ∈ s.votes → node.file.Follows (ballot t c)).mpr
      ⟨fun t c hvote => hkept.trans (h.backed n t c hvote), fun v _ => h.backed v⟩
  __ := h
  led := (forall_update_iff s.node fun _ node =>
    Led s.confirmed node.memory ∧ Led s.confirmed node.file).mpr
      ⟨⟨hmemory, hfile⟩, fun m _ => h.led m⟩
  files := (forall_update_iff s.node fun m node => node.file.Follows (s.node m).file).mpr
    ⟨hkept, fun _ _ => .refl _⟩

theorem Inv.unmoved (n : Uuid) : Advanced cluster s.node (s.setNode n (s.node n)) :=
  h.setNode (h.newer n) (.refl _) (h.led n).1 (h.led n).2

/-- A vote backed by the file of its node, and by no other before it. -/
theorem Inv.addVote {v : Uuid} (hbacks : (s.node v).file.Follows (ballot t c))
    (hnew : ∀ c', (v, t, c') ∈ s.votes → c' = c) :
    Inv cluster { s with votes := s.votes ++ [(v, t, c)] } where
  __ := h
  backed v' t' c' hvote := by
    rcases mem_append.mp hvote with hold | hlast
    · exact h.backed v' t' c' hold
    · cases mem_singleton.mp hlast
      exact hbacks
  unique v' t' c₁ c₂ h₁ h₂ := by
    rcases mem_append.mp h₁ with hold₁ | hlast₁ <;> rcases mem_append.mp h₂ with hold₂ | hlast₂
    · exact h.unique v' t' c₁ c₂ hold₁ hold₂
    · cases mem_singleton.mp hlast₂
      exact hnew c₁ hold₁
    · cases mem_singleton.mp hlast₁
      exact (hnew c₂ hold₂).symm
    · cases mem_singleton.mp hlast₁
      cases mem_singleton.mp hlast₂
      rfl
  requests r hr := mem_append_left _ (h.requests r hr)
  responses r hr hgranted := mem_append_left _ (h.responses r hr hgranted)
  quorums t' n hmem := by
    obtain ⟨Q, hsub, hcard, hvotes⟩ := h.quorums t' n hmem
    exact ⟨Q, hsub, hcard, fun w hw => mem_append_left _ (hvotes w hw)⟩

/-- An operation of one node; if it succeeds, its vote can be counted. -/
theorem Inv.run {α : Type} (n : Uuid) (op : ControllerEpoch → Except EpochError α × ControllerEpoch)
    (outcome : StoreOutcome) {a : α} {elects : Prop}
    (hop : (s.node n).memory.Votes (op (s.node n).memory) a t c elects)
    (hled : elects → (t, c) ∈ s.confirmed) :
    Advanced cluster s.node (s.setNode n ((s.node n).run op outcome).2) ∧
      ∀ b node, (s.node n).run op outcome = (.ok b, node) →
        b = a ∧ node.memory.currentTerm = t ∧
          Inv cluster { s.setNode n node with votes := s.votes ++ [(n, t, c)] } := by
  obtain ⟨hfollows, hnames⟩ : (op (s.node n).memory).2.Follows (s.node n).memory ∧
      Led s.confirmed (op (s.node n).memory).2 := by
    rcases hop with ⟨error, hop⟩ | ⟨leaderId, hop, hfree, hleader⟩ <;> rw [hop]
    · exact ⟨.refl _, (h.led n).1⟩
    · refine ⟨hfree, fun leader hnamed => ?_⟩
      rcases hleader leader hnamed with ⟨rfl, hknown⟩ | ⟨rfl, helects⟩
      · exact (h.led n).1 leader hknown
      · exact hled helects
  rcases (s.node n).run_cases op outcome with ⟨error, hrun⟩ | ⟨r, hrun, hok⟩ <;> rw [hrun]
  · exact ⟨h.setNode (hfollows.trans (h.newer n)) (.refl _) hnames (h.led n).2, nofun⟩
  · have hinv : Advanced cluster s.node
        (s.setNode n ⟨(op (s.node n).memory).2, (op (s.node n).memory).2⟩) :=
      h.setNode (.refl _) (hfollows.trans (h.newer n)) hnames hnames
    refine ⟨hinv, ?_⟩
    rintro b node heq
    cases heq
    have hb := hok b rfl
    rcases hop with ⟨error, hop⟩ | ⟨leaderId, hop, hfree, -⟩ <;> rw [hop] at hb hinv <;> cases hb
    rw [hop]
    -- the file has the vote, and stood by no other in this term
    refine ⟨rfl, rfl, hinv.addVote (by rw [setNode_self]; exact .refl _) ?_⟩
    exact fun c' hold => hfree.eq_of_ballot ((h.newer n).trans (h.backed n _ c' hold))

theorem Inv.addConfirmed {voters : List Uuid} (hnodup : voters.Nodup)
    (hmembers : voters ⊆ cluster.members) (hquorum : cluster.quorumSize ≤ voters.length)
    (hvotes : ∀ v ∈ voters, (v, t, n) ∈ s.votes) :
    Inv cluster { s with confirmed := s.confirmed ++ [(t, n)] } where
  __ := h
  quorums t' n' hmem := by
    rcases mem_append.mp hmem with hold | hlast
    · exact h.quorums t' n' hold
    · cases mem_singleton.mp hlast
      refine ⟨voters.toFinset,
        fun v hv => mem_toFinset.mpr (hmembers (mem_toFinset.mp hv)), ?_, ?_⟩
      · rw [toFinset_card_of_nodup hnodup]
        exact hquorum
      · exact fun v hv => hvotes v (mem_toFinset.mp hv)
  led m := ⟨fun l hl => mem_append_left _ ((h.led m).1 l hl),
    fun l hl => mem_append_left _ ((h.led m).2 l hl)⟩
  proofs p hp := mem_append_left _ (h.proofs p hp)

theorem Inv.addProof {proof : ControllerLeaderProof}
    (hproof : (proof.term, proof.leaderId) ∈ s.confirmed) :
    Inv cluster { s with proofs := s.proofs ++ [proof] } :=
  { h with
    proofs := by
      intro p hp
      rcases mem_snoc.mp hp with hold | rfl
      · exact h.proofs p hold
      · exact hproof }

end

variable {request : ControllerVoteRequest}

/-- What passes the checks of the runtime goes to the epoch. -/
theorem voteController_cases (config : ClusterConfig) (outcome : StoreOutcome)
    (request : ControllerVoteRequest) (n : EpochNode) :
    (∃ error, voteController config outcome request n = (.error error, n)) ∨
      voteController config outcome request n
        = let r := n.run (·.grantVote request.term request.candidateId) outcome
          ((r.1.mapError .epoch).map fun granted =>
            ⟨r.2.memory.currentTerm, config.nodeId, request.candidateId, granted⟩, r.2) := by
  unfold voteController
  split
  · exact .inl ⟨_, rfl⟩
  · split
    · exact .inl ⟨_, rfl⟩
    · exact .inr rfl

theorem confirmControllerLeader_cases (config : ClusterConfig) (outcome : StoreOutcome)
    (request : ControllerVoteRequest) (responses : List ControllerVoteResponse) (n : EpochNode) :
    (¬ (request.candidateId = config.nodeId ∧
        config.quorumSize ≤ (countVoters config request responses).length) ∧
      ∃ error, confirmControllerLeader config outcome request responses n = (.error error, n)) ∨
    (request.candidateId = config.nodeId ∧
      config.quorumSize ≤ (countVoters config request responses).length ∧
      confirmControllerLeader config outcome request responses n
        = let r := n.run (·.confirmLeader request.term request.candidateId) outcome
          ((r.1.mapError .epoch).map fun _ =>
            ⟨request.term, request.candidateId, request.clusterGeneration⟩, r.2)) := by
  unfold confirmControllerLeader
  split
  · next hother => exact .inl ⟨fun h => hother h.1, _, rfl⟩
  · next hself =>
    dsimp only
    split
    · next hfew => exact .inl ⟨fun h => Nat.not_le.mpr hfew h.2, _, rfl⟩
    · next hquorum => exact .inr ⟨not_not.mp hself, Nat.not_lt.mp hquorum, rfl⟩

/-- The voters a candidate counts are distinct members, each with a vote for it. -/
theorem countVoters_spec {config : ClusterConfig} {responses : List ControllerVoteResponse}
    {P : Uuid → Prop} (hself : config.nodeId ∈ config.members) (hown : P config.nodeId)
    (hvote : ∀ r ∈ responses, r.granted = true → r.term = request.term →
      r.candidateId = request.candidateId → P r.voterId) :
    (countVoters config request responses).Nodup ∧
      countVoters config request responses ⊆ config.members ∧
      ∀ v ∈ countVoters config request responses, P v := by
  refine List.foldlRecOn (motive := fun voters : List Uuid =>
    voters.Nodup ∧ voters ⊆ config.members ∧ ∀ v ∈ voters, P v) responses _ ?_ ?_
  · refine ⟨nodup_singleton _, ?_, ?_⟩
    · intro v hv
      rw [mem_singleton.mp hv]
      exact hself
    · intro v hv
      rw [mem_singleton.mp hv]
      exact hown
  · rintro voters ⟨hnodup, hsub, hall⟩ r hr
    split
    · next hcounted =>
      obtain ⟨hgranted, hterm, hcandidate, hmember⟩ := hcounted
      refine ⟨hnodup.insert, ?_, ?_⟩
      · intro v hv
        rcases mem_insert_iff.mp hv with rfl | hold
        · exact hmember
        · exact hsub hold
      · intro v hv
        rcases mem_insert_iff.mp hv with rfl | hold
        · exact hvote r hr hgranted hterm hcandidate
        · exact hall v hold
    · exact ⟨hnodup, hsub, hall⟩

section

variable (h : Inv cluster s)

include h

theorem Inv.campaign (n : Uuid) (outcome : StoreOutcome)
    (hstep : s.step cluster generation (.campaign n outcome) = some s') :
    Advanced cluster s.node s' := by
  simp only [step, beginControllerCampaign, configOf] at hstep
  split at hstep
  swap
  · cases hstep
  obtain ⟨hinv, hvoted⟩ := h.run n (·.beginCampaign n) outcome (beginCampaign_votes _ n) nofun
  rcases hrun : (s.node n).run (·.beginCampaign n) outcome with ⟨error | term, node⟩
  · rw [hrun] at hinv hstep
    cases hstep
    exact hinv
  · rw [hrun] at hinv hstep
    cases hstep
    obtain ⟨rfl, -, hvote⟩ := hvoted term node hrun
    refine ⟨{ hvote with requests := ?_ }, hinv.files⟩
    intro r hr
    rcases mem_snoc.mp hr with hold | rfl
    · exact hvote.requests r hold
    · exact mem_append_right _ (mem_singleton_self _)

theorem Inv.vote (n : Uuid) (request : ControllerVoteRequest) (outcome : StoreOutcome)
    (hstep : s.step cluster generation (.vote n request outcome) = some s') :
    Advanced cluster s.node s' := by
  simp only [step] at hstep
  split at hstep
  swap
  · cases hstep
  rcases voteController_cases (configOf cluster generation n) outcome request (s.node n)
    with ⟨error, hvote⟩ | hvote <;> rw [hvote] at hstep
  · cases hstep
    exact h.unmoved n
  obtain ⟨hinv, hvoted⟩ :=
    h.run n (·.grantVote request.term request.candidateId) outcome (grantVote_votes ..) nofun
  rcases hrun : (s.node n).run (·.grantVote request.term request.candidateId) outcome
    with ⟨error | granted, node⟩
  · rw [hrun] at hinv hstep
    cases hstep
    exact hinv
  · rw [hrun] at hinv hstep
    cases hstep
    obtain ⟨rfl, hterm, hadded⟩ := hvoted granted node hrun
    refine ⟨{ hadded with responses := ?_ }, hinv.files⟩
    intro r hr hr'
    rcases mem_snoc.mp hr with hold | rfl
    · exact hadded.responses r hold hr'
    · refine mem_append_right _ (mem_singleton.mpr ?_)
      rw [hterm]
      rfl

theorem Inv.request_le (hrequest : request ∈ s.requests) :
    request.term ≤ (s.node request.candidateId).memory.currentTerm :=
  ((h.newer _).trans (h.backed _ _ _ (h.requests request hrequest))).term_le

theorem Inv.confirm (n : Uuid) (request : ControllerVoteRequest)
    (responses : List ControllerVoteResponse) (outcome : StoreOutcome)
    (hstep : s.step cluster generation (.confirm n request responses outcome) = some s') :
    Advanced cluster s.node s' := by
  simp only [step] at hstep
  split at hstep
  swap
  · cases hstep
  next hsent =>
  obtain ⟨hmember, hrequest, hresponses⟩ := hsent
  rcases confirmControllerLeader_cases (configOf cluster generation n) outcome request responses
    (s.node n) with ⟨hrefused, error, hconfirm⟩ | ⟨rfl, hquorum, hconfirm⟩ <;>
    rw [hconfirm] at hstep
  · cases hstep
    rw [if_neg fun helected => hrefused ⟨helected.1, helected.2.1⟩]
    exact h.unmoved n
  have hown := h.requests request hrequest
  have hvotes := confirmLeader_votes request.candidateId (h.request_le hrequest)
  rcases hvotes with ⟨error, hop⟩ | ⟨leaderId, hop, -⟩
  · have hrun : (s.node request.candidateId).run
        (·.confirmLeader request.term request.candidateId) outcome
        = (.error error, s.node request.candidateId) := by
      simp only [EpochNode.run, hop]
    rw [hrun] at hstep
    cases hstep
    rw [if_neg (by rw [hop]; exact fun helected => Bool.noConfusion helected.2.2)]
    exact h.unmoved _
  · have hcounted : ∀ r ∈ responses, r.granted = true → r.term = request.term →
        r.candidateId = request.candidateId →
          (r.voterId, request.term, request.candidateId) ∈ s.votes := by
      intro r hr hgranted hterm hcandidate
      rw [← hterm, ← hcandidate]
      exact h.responses r (hresponses hr) hgranted
    obtain ⟨hnodup, hsub, hvotes⟩ :
        let voters :=
          countVoters (configOf cluster generation request.candidateId) request responses
        voters.Nodup ∧ voters ⊆ cluster.members ∧
          ∀ v ∈ voters, (v, request.term, request.candidateId) ∈ s.votes :=
      countVoters_spec hmember hown hcounted
    have hconfirmed := h.addConfirmed hnodup hsub hquorum hvotes
    have hinv := (hconfirmed.run request.candidateId
      (·.confirmLeader request.term request.candidateId) outcome
      (confirmLeader_votes _ (h.request_le hrequest))
      fun _ => mem_append_right _ (mem_singleton_self _)).1
    rw [hop, if_pos ⟨rfl, hquorum, rfl⟩] at hstep
    rcases hrun : (s.node request.candidateId).run
      (·.confirmLeader request.term request.candidateId) outcome with ⟨error | term, node⟩
    · rw [hrun] at hstep hinv
      cases hstep
      exact hinv
    · rw [hrun] at hstep hinv
      cases hstep
      exact ⟨hinv.addProof (mem_append_right _ (mem_singleton_self _)), hinv.files⟩

theorem Inv.observe (n : Uuid) (proof : ControllerLeaderProof) (outcome : StoreOutcome)
    (hstep : s.step cluster generation (.observe n proof outcome) = some s') :
    Advanced cluster s.node s' := by
  simp only [step] at hstep
  split at hstep
  swap
  · cases hstep
  next hsent =>
  cases hstep
  unfold observeControllerLeader
  split
  · exact h.unmoved n
  · exact (h.run n (·.observeTerm proof.term proof.leaderId) outcome (observeTerm_votes ..)
      fun _ => h.proofs proof hsent.2).1

/-- **Every step keeps the votes backed**, and the files. -/
theorem Inv.step (event : ElectionEvent)
    (hstep : s.step cluster generation event = some s') : Advanced cluster s.node s' := by
  cases event with
  | campaign n outcome => exact h.campaign n outcome hstep
  | vote n request outcome => exact h.vote n request outcome hstep
  | confirm n request responses outcome => exact h.confirm n request responses outcome hstep
  | observe n proof outcome => exact h.observe n proof outcome hstep
  | gossip n =>
    simp only [Election.step] at hstep
    split at hstep
    · cases hstep
      refine ⟨?_, fun _ => .refl _⟩
      cases hleader : (s.node n).memory.leaderId with
      | none => simpa [controllerLeaderProof, hleader] using h
      | some leader =>
        simp only [controllerLeaderProof, hleader, map_some, toList_some]
        exact h.addProof ((h.led n).1 leader hleader)
    · cases hstep
  | restart n =>
    simp only [Election.step] at hstep
    split at hstep
    · cases hstep
      exact h.setNode (.refl _) (.refl _) (h.led n).2 (h.led n).2
    · cases hstep

/-- Two quorums of a term share a voter, who voted once. -/
theorem Inv.leader_unique {n' : Uuid} (hn : (t, n) ∈ s.confirmed) (hn' : (t, n') ∈ s.confirmed) :
    n = n' := by
  obtain ⟨Q, hsub, hcard, hvotes⟩ := h.quorums t n hn
  obtain ⟨Q', hsub', hcard', hvotes'⟩ := h.quorums t n' hn'
  have hmembers : cluster.members.toFinset.card ≤ cluster.nodeCount := by
    refine (toFinset_card_le _).trans ?_
    rw [ClusterConfig.members, length_map]
    exact Nat.le_max_left _ _
  have hmany : cluster.members.toFinset.card < Q.card + Q'.card := by
    unfold ClusterConfig.quorumSize at hcard hcard'
    omega
  obtain ⟨v, hv⟩ := Finset.inter_nonempty_of_card_lt_card_add_card hsub hsub' hmany
  obtain ⟨hvQ, hvQ'⟩ := Finset.mem_inter.mp hv
  exact h.unique v t n n' (hvotes v hvQ) (hvotes' v hvQ')

end

end Inv

end Election

/-- **Controller votes are safe.** Whatever messages are lost, repeated or late, wherever a `store`
fails and whenever a node restarts: a node votes for one candidate in a term, the term in its file
never falls, and a term has one leader. -/
theorem votes_elect_one_leader {cluster : ClusterConfig} {generation : Uuid → Nat}
    {before after : List ElectionEvent} {s s' : Election}
    (hbefore : AnyRun (Election.step cluster generation) .initial before s)
    (hafter : AnyRun (Election.step cluster generation) s after s') :
    (∀ v t c c', (v, t, c) ∈ s.votes → (v, t, c') ∈ s.votes → c = c') ∧
      (∀ n, (s.node n).file.currentTerm ≤ (s'.node n).file.currentTerm) ∧
      ∀ t n n', (t, n) ∈ s.confirmed → (t, n') ∈ s.confirmed → n = n' := by
  have hinv : Election.Inv cluster s := Run.invariant (Election.Inv cluster)
    (fun _ event _ h _ hstep => (h.step event hstep).toInv) hbefore
    (Election.inv_initial cluster)
  refine ⟨hinv.unique, fun n => ?_, fun t n n' => hinv.leader_unique⟩
  have hkept : (s'.node n).file.Follows (s.node n).file :=
    Run.related (Election.Inv cluster) (fun s s' => (s'.node n).file.Follows (s.node n).file)
      (fun _ => .refl _) (fun h h' => h'.trans h)
      (fun _ event _ h _ hstep => (h.step event hstep).toInv)
      (fun _ event _ h _ hstep => (h.step event hstep).files n) hafter hinv
  exact hkept.term_le

def threeNodes : ClusterConfig := ⟨0, [⟨1, "a"⟩, ⟨2, "b"⟩, ⟨3, "c"⟩], 0, 0⟩

/-- The first node wins a term that the third campaigned in as well: the second had lost its vote
for the third to a failed `store` and a restart. -/
def contestedTerm : List ElectionEvent :=
  [.campaign 1 .stored, .campaign 3 .stored, .vote 2 ⟨1, 3, 7⟩ (.failed false), .restart 2,
    .vote 2 ⟨1, 1, 7⟩ .stored, .vote 2 ⟨1, 3, 7⟩ .stored, .vote 3 ⟨1, 1, 7⟩ .stored,
    .confirm 3 ⟨1, 3, 7⟩ [] .stored, .confirm 1 ⟨1, 1, 7⟩ [⟨1, 2, 1, true⟩] (.failed true),
    .gossip 1, .observe 2 ⟨1, 1, 7⟩ .stored]

theorem contested_term_has_one_leader :
    ∃ s, AnyRun (Election.step threeNodes fun _ => 7) .initial contestedTerm s ∧
      s.confirmed = [(1, 1)] ∧ (s.node 2).file.leaderId = some 1 ∧
      (∀ v t c c', (v, t, c) ∈ s.votes → (v, t, c') ∈ s.votes → c = c') ∧
      ∀ t n n', (t, n) ∈ s.confirmed → (t, n') ∈ s.confirmed → n = n' := by
  refine Exists.imp (fun s => and_imp_of fun hrun => and_imp_of fun _ => and_of fun _ => ?_)
    (by decide +kernel)
  obtain ⟨hvotes, -, hunique⟩ := votes_elect_one_leader hrun (.nil s)
  exact ⟨hvotes, hunique⟩

end BetterMQ.Controller
