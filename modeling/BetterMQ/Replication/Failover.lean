import Mathlib.Data.Finset.Card
import BetterMQ.Replication.Acks

/-!
# Failover

Does a node that marks the shard ready hold every record that was acknowledged before? A leader
acknowledges a publish that `min_isr` replicas have fsynced. The node that gains the shard asks the
peers it believes alive and takes the log of the one with the highest committed watermark.

* **`acknowledged_survives`** — it holds them, in every run in which the placement keeps its
  replicas, a restart finds only fsynced records, and every catch-up is undisturbed, hears from
  enough replicas and meets no diverged log among them;
* **`lonely_leader_lacks_acknowledged`** — it does not when it sees no peer alive: `catch_up_shard`
  then returns `Ok` at once.
-/

namespace BetterMQ

open Finset Function List Option

namespace Cluster

variable {s s' : Cluster} {e : Event} {n source m peer : NodeId} {frames : List ReplicaFrame}
  {hwm probeFrom leo : Nat} {topic : String} {last last' : Option Nat}

/-! ## Conditions -/

/-- One log is a part of the other. -/
def Comparable (as bs : List Uuid) : Prop := as <+: bs ∨ bs <+: as

theorem Comparable.symm {as bs : List Uuid} (h : Comparable as bs) : Comparable bs as := Or.symm h

theorem Comparable.getElem? {as bs : List Uuid} (h : Comparable as bs) {k : Nat} {a : Uuid}
    (ha : as[k]? = some a) (hk : k < bs.length) : bs[k]? = some a := by
  rcases h with hpre | hpre
  · exact getElem?_of_isPrefix hpre ha
  · have hb := getElem?_eq_getElem hk
    have hsame := getElem?_of_isPrefix hpre hb
    rw [ha] at hsame
    rw [hb, hsame]

section Quorum

-- the replicas of the shard, and how many of them acknowledge a publish
variable (R : Finset NodeId) (q : Nat)

/-- The best answer of a catch-up comes from enough replicas, none of which has diverged from its
source. -/
def ChooseOk (s : Cluster) (n : NodeId) (c : CatchUp) : Prop :=
  match c.stage with
  | .probing _ _ _ (some (source, _)) =>
    (s.acknowledged = [] ∨ R.card < ((insert n c.answered.toFinset) ∩ R).card + q) ∧
      ∀ m ∈ n :: c.answered, Comparable (logIds (s.replicas m).log.records)
        (logIds (s.replicas source).log.records)
  | _ => True

/-- What a step may do. -/
def FailoverOk (s : Cluster) : Event → Prop
  -- the replicas and `min_isr` stay, and a replica leads
  | .command (.acquireShardLeadership leaderId) => leaderId ∈ R
  | .command (.beginRebalance _) => True
  | .command _ => False
  -- a restart finds only fsynced records
  | .restart n keep => keep ≤ (s.replicas n).log.synced
  -- a shard without peers or topics is taken over only if every replica acknowledges
  | .gain _ topics peers => peers = [] ∨ topics = [] → s.acknowledged = [] ∨ R.card ≤ q
  | .choose n => ∀ c ∈ (s.replicas n).catchUp, ChooseOk R q s n c
  -- nothing is acknowledged while a node catches up, and nobody else appends to that node
  | .acknowledge _ => ∀ n ∈ s.nodes, (s.replicas n).catchUp = none
  | .append i _ => ∀ p ∈ s.publishings[i]?, (s.replicas p.leader).catchUp = none
  | .appendFrame h => ∀ handler ∈ s.handlers[h]?, (s.replicas handler.peer).catchUp = none
  | _ => True

/-! ## Logs and placements -/

/-- A placement with the replicas and the quorum of the run, led by a replica. -/
structure PlacementSettled (nodes : List NodeId) (p : Placement) : Prop where
  replicas : p.replicas.toFinset = R
  quorum : p.quorum nodes = q
  leader : p.leaderId ∈ R

/-- Watermarks are what an fsync has covered, and no node has seen any other placement. -/
structure Settled (s : Cluster) : Prop where
  fsynced : Fsynced s
  placements : ∀ p ∈ s.placements, PlacementSettled R q s.nodes p
  observed : ∀ n, PlacementSettled R q s.nodes (s.replicas n).placement

variable {R q}

theorem FailoverOk.restartOk (h : FailoverOk R q s e) : RestartOk s e := by
  cases e with
  | restart n keep => exact h
  | _ => trivial

variable {nodes : List NodeId} {p : Placement}

theorem PlacementSettled.command {p' : Placement} {c : ControllerCommand}
    (h : PlacementSettled R q nodes p) (hok : FailoverOk R q s (.command c))
    (hc : applyCommand s.nodes s.shard p c = some p') : PlacementSettled R q nodes p' := by
  cases c with
  | acquireShardLeadership leaderId =>
    rw [applyCommand, ite_none_right_eq_some] at hc
    cases hc.2
    exact ⟨h.replicas, h.quorum, hok⟩
  | beginRebalance remove =>
    cases hc
    exact ⟨h.replicas, h.quorum, h.leader⟩
  | promoteLearner | completeRebalance | setReplicationPolicy => exact hok.elim

theorem Settled.step (h : Settled R q s) (hok : FailoverOk R q s e) (hstep : s.step e = some s') :
    Settled R q s' := by
  refine ⟨h.fsynced.step hok.restartOk hstep, ?_, fun n => ?_⟩
  · rw [(step_nodes hstep).1]
    intro p hp
    rcases step_placements hstep hp with hold | ⟨c, last, hlast, rfl, hc⟩
    · exact h.placements p hold
    · exact (h.placements last hlast).command hok hc
  · rw [(step_nodes hstep).1]
    rcases step_placement hstep n with hsame | hnew
    · rw [hsame]
      exact h.observed n
    · exact h.placements _ hnew

/-! ## Publishes -/

variable (R q)

/-- A publish of a replica, whose request goes to replicas. -/
structure PublishingSettled (p : Publishing) : Prop where
  leader : p.leader ∈ R
  request : ∀ r ∈ p.request, r.quorum = q ∧ ∀ peer ∈ r.targets, peer ∈ R ∧ peer ≠ p.leader

variable {R q}

theorem PlacementSettled.targets (h : PlacementSettled R q nodes p) {self : NodeId}
    (hpeer : peer ∈ (p.replicationTargets nodes self).1) : peer ∈ R ∧ peer ≠ self := by
  obtain ⟨hother, hreplica⟩ := mem_filter.mp hpeer
  obtain ⟨-, hne⟩ := mem_filter.mp hother
  refine ⟨?_, of_decide_eq_true hne⟩
  have hleader : p.leaderId ∈ p.replicas := by
    rw [← List.mem_toFinset, h.replicas]
    exact h.leader
  have hids : p.replicaIds nodes = p.replicas := if_neg (ne_nil_of_mem hleader)
  rw [← h.replicas, List.mem_toFinset, ← hids]
  exact of_decide_eq_true hreplica

theorem Settled.mem_of_electLeader (h : Settled R q s) (hn : (s.replicas n).electLeader = some n) :
    n ∈ R := by
  have hleader := (h.observed n).leader
  rw [Replica.electLeader, ite_none_right_eq_some] at hn
  rwa [Option.some.inj hn.2] at hleader

theorem PublishingSettled.step (hall : ∀ p ∈ s.publishings, PublishingSettled R q p)
    (hsettled : Settled R q s) (hstep : s.step e = some s') :
    ∀ p ∈ s'.publishings, PublishingSettled R q p := by
  intro p hp
  rcases step_publishing hstep hp with ⟨old, hold, hleader, hrequest, -⟩ | ⟨hnew, hnone, -⟩
  · refine ⟨hleader ▸ (hall old hold).leader, ?_⟩
    rw [hleader]
    rcases hrequest with hrequest | hrequest <;> rw [hrequest]
    · exact (hall old hold).request
    · have hplacement := hsettled.observed old.leader
      rintro _ ⟨⟩
      exact ⟨hplacement.quorum, fun peer hpeer => hplacement.targets hpeer⟩
  · simp only [Replica.isLeader, Bool.and_eq_true, decide_eq_true_eq] at hnew
    refine ⟨hsettled.mem_of_electLeader hnew.2, fun r hr => ?_⟩
    rw [hnone] at hr
    cases hr

/-! ## Acknowledged records -/

variable (R q)

/-- Enough replicas have fsynced the record. -/
def Acknowledgeable (s : Cluster) (x : Nat × Uuid) : Prop :=
  ∃ Q ⊆ R, q ≤ Q.card ∧ ∀ m ∈ Q, s.Durable m x

/-- What a catch-up knows. While it probes, every acknowledged record is below the best watermark if
a replica that answered has it. While it applies a page, every acknowledged record is in the log or
comes from the source. -/
def CatchUpOk (s : Cluster) (n : NodeId) (c : CatchUp) : Prop :=
  match c.stage with
  | .probing _ _ _ best =>
    (∀ x ∈ s.acknowledged, ∃ Q ⊆ R, q ≤ Q.card ∧ (∀ m ∈ Q, s.Durable m x) ∧
      ∀ m ∈ Q, m ∈ c.answered → ∃ b ∈ best, x.1 < b.2.committedHwm) ∧
    ∀ b ∈ best, b.2.committedHwm ≤ (s.replicas b.1).log.synced ∧
      ∀ f ∈ b.2.frames, f.offset < b.2.committedHwm → s.Durable b.1 (f.offset, f.id)
  | .applying source hwm frames _ =>
    ∀ x ∈ s.acknowledged, s.HasRecord n x ∨
      (s.replicas n).log.records.length ≤ x.1 ∧ x.1 < hwm ∧ s.Durable source x ∧
        ∀ f ∈ frames, f.offset = x.1 → f.id = x.2

structure FailoverInv (s : Cluster) : Prop where
  acknowledged : ∀ x ∈ s.acknowledged, Acknowledgeable R q s x
  catching : ∀ n, ∀ c ∈ (s.replicas n).catchUp, n ∈ s.nodes ∧ n ∈ R ∧ CatchUpOk R q s n c
  ready : ∀ n, ∀ x ∈ (s.replicas n).mustHold, s.HasRecord n x

variable {R q} {c : CatchUp}

theorem CatchUpOk.mono (h : CatchUpOk R q s n c) (hack : s'.acknowledged = s.acknowledged)
    (hlog : (s'.replicas n).log.records = (s.replicas n).log.records)
    (hsynced : ∀ m, (s.replicas m).log.synced ≤ (s'.replicas m).log.synced)
    (hdurable : ∀ m x, s.Durable m x → s'.Durable m x) : CatchUpOk R q s' n c := by
  unfold CatchUpOk at h ⊢
  rw [hack]
  split at h
  · obtain ⟨hquorum, hbest⟩ := h
    refine ⟨fun x hx => ?_, fun b hb => ?_⟩
    · obtain ⟨Q, hQ, hcard, hheld, hanswered⟩ := hquorum x hx
      exact ⟨Q, hQ, hcard, fun m hm => hdurable m x (hheld m hm), hanswered⟩
    · obtain ⟨hle, hframes⟩ := hbest b hb
      exact ⟨hle.trans (hsynced b.1), fun f hf hlt => hdurable _ _ (hframes f hf hlt)⟩
  · intro x hx
    rw [HasRecord, hlog]
    refine (h x hx).imp_right fun hframe => ?_
    obtain ⟨hle, hlt, hsource, hframes⟩ := hframe
    exact ⟨hle, hlt, hdurable _ _ hsource, hframes⟩

variable {topics : List String} {peers answered todo : List NodeId} {r : Replica} {f : ReplicaFrame}

theorem CatchUpOk.beginTopic (hack : ∀ x ∈ s.acknowledged, Acknowledgeable R q s x)
    (hc : c ∈ (Cluster.beginTopic r topics peers).catchUp) : CatchUpOk R q s n c := by
  cases hc
  refine ⟨fun x hx => ?_, fun b hb => absurd hb.symm (some_ne_none b)⟩
  obtain ⟨Q, hQ, hcard, hheld⟩ := hack x hx
  exact ⟨Q, hQ, hcard, hheld, nofun⟩

theorem betterPage_ge (best : Option (NodeId × CatchUpPage)) (peer : NodeId) (page : CatchUpPage) :
    ∃ b ∈ betterPage best peer page, page.committedHwm ≤ b.2.committedHwm ∧
      (∀ b' ∈ best, b'.2.committedHwm ≤ b.2.committedHwm) ∧ (b = (peer, page) ∨ b ∈ best) := by
  unfold betterPage
  split
  · next source current =>
    split
    · next hlt =>
      refine ⟨(peer, page), rfl, Nat.le_refl _, ?_, .inl rfl⟩
      rintro b' ⟨⟩
      exact hlt.le
    · next hle =>
      refine ⟨(source, current), rfl, Nat.le_of_not_lt hle, ?_, .inr rfl⟩
      rintro b' ⟨⟩
      exact Nat.le_refl _
  · exact ⟨(peer, page), rfl, Nat.le_refl _, fun b' hb' => absurd hb'.symm (some_ne_none b'),
      .inl rfl⟩

/-- The answer of a peer counts everything the peer has fsynced. -/
theorem CatchUpOk.probe (hsettled : Settled R q s) {best : Option (NodeId × CatchUpPage)}
    (h : CatchUpOk R q s n
      ⟨topic :: topics, peers, .probing (peer :: todo) leo probeFrom best, answered⟩) :
    CatchUpOk R q s n ⟨topic :: topics, peers, .probing todo leo probeFrom (betterPage best peer
      ((s.replicas peer).catchUpRange topic probeFrom 4096)), answered ++ [peer]⟩ := by
  obtain ⟨hquorum, hbest⟩ := h
  have hhwm : ((s.replicas peer).catchUpRange topic probeFrom 4096).committedHwm
      = (s.replicas peer).log.synced := hsettled.fsynced.committed peer
  obtain ⟨b, hb, hpage, hold, hfrom⟩ :=
    betterPage_ge best peer ((s.replicas peer).catchUpRange topic probeFrom 4096)
  refine ⟨fun x hx => ?_, fun b' hb' => ?_⟩
  · obtain ⟨Q, hQ, hcard, hheld, hanswered⟩ := hquorum x hx
    refine ⟨Q, hQ, hcard, hheld, fun m hm hmem => ⟨b, hb, ?_⟩⟩
    rcases mem_append.mp hmem with hbefore | hnew
    · obtain ⟨b₀, hb₀, hlt⟩ := hanswered m hm hbefore
      exact hlt.trans_le (hold b₀ hb₀)
    · rw [List.mem_singleton.mp hnew] at hm
      refine Nat.lt_of_lt_of_le ?_ hpage
      rw [hhwm]
      exact (hheld peer hm).2
  · cases (mem_unique hb' hb)
    rcases hfrom with rfl | hmem
    · refine ⟨Nat.le_of_eq hhwm, fun f hf hlt => ⟨(readFrom_of_catchUpRange hf).getElem?, ?_⟩⟩
      rw [← hhwm]
      exact hlt
    · exact hbest b hmem

/-- **The choice of a source.** Enough replicas answered, so for each acknowledged record one of
them or the node itself has it, and the source has not diverged from that one. -/
theorem CatchUpOk.choose {page : CatchUpPage} (hn : n ∈ R) (h : CatchUpOk R q s n
      ⟨topics, peers, .probing todo leo probeFrom (some (source, page)), answered⟩)
    (hok : ChooseOk R q s n
      ⟨topics, peers, .probing todo leo probeFrom (some (source, page)), answered⟩) :
    CatchUpOk R q s n
      ⟨topics, peers, .applying source page.committedHwm page.frames none, answered⟩ := by
  obtain ⟨hquorum, hbest⟩ := h
  obtain ⟨henough, hcomparable⟩ := hok
  obtain ⟨hle, hframes⟩ := hbest _ rfl
  have hsynced := (s.replicas source).log.synced_le
  have hlength : ∀ m, (logIds (s.replicas m).log.records).length
      = (s.replicas m).log.records.length := fun m => length_map _
  intro x hx
  obtain ⟨Q, hQ, hcard, hheld, hanswered⟩ := hquorum x hx
  -- a replica with the record answered, or is the node itself
  obtain ⟨m, hm⟩ : (Q ∩ (insert n answered.toFinset ∩ R)).Nonempty := by
    refine inter_nonempty_of_card_lt_card_add_card hQ inter_subset_right ?_
    rcases henough with hnil | hlt
    · rw [hnil] at hx
      cases hx
    · exact hlt.trans_le (by rw [Nat.add_comm]; exact Nat.add_le_add_right hcard _)
  obtain ⟨hmQ, hmem⟩ := mem_inter.mp hm
  have hmem' := (mem_inter.mp hmem).1
  rcases mem_insert.mp hmem' with rfl | hpeer
  · exact .inl (hheld m hmQ).1
  · have hpeer' : m ∈ answered := mem_toFinset.mp hpeer
    obtain ⟨b, hb, hlt⟩ := hanswered m hmQ hpeer'
    cases hb
    have hlt' : x.1 < (s.replicas source).log.synced := hlt.trans_le hle
    have hsource : s.Durable source x := by
      refine ⟨(hcomparable m (.tail _ hpeer')).getElem? (hheld m hmQ).1 ?_, hlt'⟩
      rw [hlength]
      exact hlt'.trans_le hsynced
    by_cases hlocal : x.1 < (s.replicas n).log.records.length
    · refine .inl ((hcomparable n (.head _)).symm.getElem? hsource.1 ?_)
      rw [hlength]
      exact hlocal
    · refine .inr ⟨Nat.le_of_not_lt hlocal, hlt, hsource, fun f hf hoffset => ?_⟩
      have hf' := (hframes f hf (hoffset ▸ hlt)).1
      rw [HasRecord, hoffset, hsource.1] at hf'
      exact (Option.some.inj hf').symm

/-- A frame of the page brings the record that belongs at its offset. -/
theorem CatchUpOk.applyFrame
    (h : CatchUpOk R q s n ⟨topics, peers, .applying source hwm (f :: frames) last, answered⟩)
    (happend : (s.replicas n).appendRawFrame f = some r) (hlog : (s'.replicas n).log = r.log)
    (hack : s'.acknowledged = s.acknowledged) (hkept : ∀ x, s.HasRecord n x → s'.HasRecord n x)
    (hdurable : ∀ m x, s.Durable m x → s'.Durable m x) :
    CatchUpOk R q s' n ⟨topics, peers, .applying source hwm frames last', answered⟩ := by
  intro x hx
  rw [hack] at hx
  rcases h x hx with hheld | ⟨hle, hlt, hsource, hframes⟩
  · exact .inl (hkept x hheld)
  · have hrest : ∀ g ∈ frames, g.offset = x.1 → g.id = x.2 :=
      fun g hg => hframes g (.tail _ hg)
    rcases appendRawFrame_cases happend with ⟨rfl, -⟩ | ⟨hoffset, rfl⟩
    · rw [hlog]
      exact .inr ⟨hle, hlt, hdurable _ _ hsource, hrest⟩
    · by_cases hhere : f.offset = x.1
      · refine .inl ?_
        rw [HasRecord, hlog, ← hhere, ← hframes f (.head _) hhere]
        exact hasRecord_appendRawFrame happend
      · refine .inr ⟨?_, hlt, hdurable _ _ hsource, hrest⟩
        rw [hlog, DurableLog.records_append, length_append, length_singleton]
        omega

theorem CatchUpOk.nextPage (hsettled : Settled R q s)
    (h : CatchUpOk R q s n ⟨topic :: topics, peers, .applying source hwm [] last, answered⟩)
    (fromOffset : Nat) :
    CatchUpOk R q s n ⟨topic :: topics, peers, .applying source
      ((s.replicas source).catchUpRange topic fromOffset 4096).committedHwm
      ((s.replicas source).catchUpRange topic fromOffset 4096).frames last', answered⟩ := by
  intro x hx
  refine (h x hx).imp_right fun ⟨hle, _, hsource, _⟩ => ⟨hle, ?_, hsource, fun f hf hoffset => ?_⟩
  · exact Nat.lt_of_lt_of_eq hsource.2 (hsettled.fsynced.committed source).symm
  · have hf' := (readFrom_of_catchUpRange hf).getElem?
    rw [hoffset, hsource.1] at hf'
    exact (Option.some.inj hf').symm

/-- At the end of the last page everything acknowledged is in the log. -/
theorem CatchUpOk.finished
    (h : CatchUpOk R q s n ⟨topics, peers, .applying source hwm frames last, answered⟩)
    (hwmle : hwm ≤ (s.replicas n).log.records.length) : ∀ x ∈ s.acknowledged, s.HasRecord n x := by
  intro x hx
  rcases h x hx with hheld | ⟨hle, hlt, -⟩
  · exact hheld
  · omega

theorem Acknowledgeable.step {x : Nat × Uuid} (h : Acknowledgeable R q s x)
    (hstep : s.step e = some s') : Acknowledgeable R q s' x := by
  obtain ⟨Q, hQ, hcard, hheld⟩ := h
  exact ⟨Q, hQ, hcard, fun m hm => (hheld m hm).step hstep⟩

section

variable (h : FailoverInv R q s) (hstep : s.step e = some s')

include h hstep

section

variable (hreplicas : s'.replicas = Function.update s.replicas m r)

include hreplicas

theorem FailoverInv.of_update (hack : s'.acknowledged = s.acknowledged)
    (hcatch : ∀ c ∈ r.catchUp, m ∈ s.nodes ∧ m ∈ R ∧ CatchUpOk R q s' m c)
    (hready : ∀ x ∈ r.mustHold, s'.HasRecord m x) : FailoverInv R q s' where
  acknowledged x hx := (h.acknowledged x (hack ▸ hx)).step hstep
  catching n c hc := by
    rw [(step_nodes hstep).1]
    rw [hreplicas, update_apply] at hc
    split at hc
    · next hn => exact hn ▸ hcatch c hc
    · next hn =>
      obtain ⟨hmem, hR, hok⟩ := h.catching n c hc
      refine ⟨hmem, hR, hok.mono hack ?_ (fun m => (step_log hstep m).1)
        fun m x hx => hx.step hstep⟩
      rw [hreplicas, update_of_ne hn]
  ready n x hx := by
    rw [hreplicas, update_apply] at hx
    split at hx
    · next hn => exact hn ▸ hready x hx
    · next hn =>
      rw [HasRecord, hreplicas, update_of_ne hn]
      exact h.ready n x hx

/-- The log of the node keeps its records. -/
theorem FailoverInv.of_records (hack : s'.acknowledged = s.acknowledged)
    (hlog : r.log.records = (s.replicas m).log.records)
    (hcatch : ∀ c ∈ r.catchUp, m ∈ s.nodes ∧ m ∈ R ∧ CatchUpOk R q s m c)
    (hready : ∀ x ∈ r.mustHold, s.HasRecord m x) : FailoverInv R q s' := by
  have hlog' : (s'.replicas m).log.records = (s.replicas m).log.records := by
    rw [hreplicas, update_self, hlog]
  refine h.of_update hstep hreplicas hack (fun c hc => ?_) fun x hx => ?_
  · obtain ⟨hmem, hR, hok⟩ := hcatch c hc
    exact ⟨hmem, hR, hok.mono hack hlog' (fun m => (step_log hstep m).1)
      fun m x hx => hx.step hstep⟩
  · rw [HasRecord, hlog']
    exact hready x hx

theorem FailoverInv.of_kept (hack : s'.acknowledged = s.acknowledged)
    (hcatchUp : r.catchUp = (s.replicas m).catchUp) (hmust : r.mustHold = (s.replicas m).mustHold)
    (hlog : r.log.records = (s.replicas m).log.records) : FailoverInv R q s' :=
  h.of_records hstep hreplicas hack hlog (fun c hc => h.catching m c (hcatchUp ▸ hc))
    fun x hx => h.ready m x (hmust ▸ hx)

end

theorem FailoverInv.of_same (hreplicas : s'.replicas = s.replicas)
    (hack : s'.acknowledged = s.acknowledged) : FailoverInv R q s' :=
  h.of_kept hstep (hreplicas.trans (update_eq_self 0 s.replicas).symm) hack rfl rfl rfl

end

/-- The quorum of a publish that is acknowledged. -/
theorem PublishingOk.acknowledgeable (hsettled : Settled R q s) {p : Publishing}
    (h : PublishingOk s p) (hp : PublishingSettled R q p) {request : ReplicateRequest}
    (hrequest : p.request = some request)
    (halive : p.alive = true) (hcommitted : endOffset p.frames ≤ (s.replicas p.leader).committed)
    (hquorum : request.quorum ≤ p.acked.length + 1) (hf : f ∈ p.frames) :
    Acknowledgeable R q s (f.offset, f.id) := by
  obtain ⟨hq, htargets⟩ := hp.request request hrequest
  have hpeer : ∀ peer ∈ p.acked, peer ∈ R ∧ peer ≠ p.leader := by
    intro peer hmem
    obtain ⟨⟨r, hr, htarget⟩, -⟩ := h.acked peer hmem
    rw [hrequest] at hr
    cases hr
    exact htargets peer htarget
  have hleader : p.leader ∉ p.acked.toFinset := fun hmem =>
    (hpeer p.leader (mem_toFinset.mp hmem)).2 rfl
  refine ⟨insert p.leader p.acked.toFinset, ?_, ?_, ?_⟩
  · refine insert_subset hp.leader fun peer hmem => ?_
    exact (hpeer peer (mem_toFinset.mp hmem)).1
  · rw [card_insert_of_notMem hleader, toFinset_card_of_nodup h.distinct, ← hq]
    exact hquorum
  · intro m hm
    rcases mem_insert.mp hm with rfl | hmem
    · refine ⟨h.own halive f hf, ?_⟩
      rw [← hsettled.fsynced.committed p.leader]
      exact Nat.lt_of_lt_of_le (h.consecutive.lt_endOffset hf) hcommitted
    · exact (h.acked m (mem_toFinset.mp hmem)).2 f hf

theorem FailoverInv.step (h : FailoverInv R q s) (hsettled : Settled R q s)
    (hpublishes : PublishesOk s) (hreplicas : ∀ p ∈ s.publishings, PublishingSettled R q p)
    (hok : FailoverOk R q s e) (hstep : s.step e = some s') : FailoverInv R q s' := by
  have hnever : ∀ {c : CatchUp}, c ∈ none → False :=
    fun hc => some_ne_none _ hc.symm
  cases step_steps hstep with
  | command | startPublish | send | accept | rejectFrame | finish | receive =>
    exact h.of_same hstep rfl rfl
  | observe | remove | lose => exact h.of_kept hstep rfl rfl rfl rfl rfl
  | flush =>
    refine h.of_kept hstep rfl rfl rfl rfl ?_
    split <;> rfl
  | @append i items p hp =>
    refine h.of_update hstep rfl rfl (fun c hc => ?_) fun x hx => ?_
    · have hnone : (s.replicas p.leader).catchUp = none := hok p hp
      have hc' : c ∈ (s.replicas p.leader).catchUp := hc
      rw [hnone] at hc'
      exact (hnever hc').elim
    · exact (h.ready p.leader x hx).step hstep nofun
  | @appendFrame k handler p f r hh hp hf hr =>
    refine h.of_update hstep rfl rfl (fun c hc => ?_) fun x hx => ?_
    · rw [(appendRawFrame_same hr).1, hok handler hh] at hc
      exact (hnever hc).elim
    · rw [(appendRawFrame_same hr).2] at hx
      exact (h.ready handler.peer x hx).step hstep nofun
  | @acknowledge i p request hp hrequest halive hcommitted hquorum =>
    refine ⟨fun x hx => ?_, fun n c hc => ?_, h.ready⟩
    · rcases mem_append.mp hx with hold | hnew
      · exact (h.acknowledged x hold).step hstep
      · obtain ⟨f, hf, rfl⟩ := mem_map.mp hnew
        exact ((hpublishes.publishings i p hp).acknowledgeable hsettled
          (hreplicas p (mem_of_getElem? hp)) hrequest halive hcommitted hquorum hf).step hstep
    · -- no node catches up now
      obtain ⟨hn, -⟩ := h.catching n c hc
      have hnone : (s.replicas n).catchUp = none := hok n hn
      have hc' : c ∈ (s.replicas n).catchUp := hc
      rw [hnone] at hc'
      exact (hnever hc').elim
  | @gain n topics peers hn hleader hidle hpeers =>
    have hR : n ∈ R := hsettled.mem_of_electLeader hleader
    refine h.of_records hstep rfl rfl ?_ (fun c hc => ?_) fun x hx => ?_
    · split <;> rfl
    · split at hc
      · exact (hnever hc).elim
      · exact ⟨hn, hR, .beginTopic h.acknowledged hc⟩
    · split at hx
      · next halone =>
        -- every replica has every acknowledged record
        have hx' : x ∈ s.acknowledged := hx
        obtain ⟨Q, hQ, hcard, hheld⟩ := h.acknowledged x hx'
        rcases hok halone with hnil | hall
        · rw [hnil] at hx'
          cases hx'
        · have hQR : Q = R := eq_of_subset_of_card_le hQ (hall.trans hcard)
          exact (hheld n (hQR ▸ hR)).1
      · exact h.ready n x hx
  | @probe n ok r hr =>
    obtain ⟨topic, topics, peers, peer, todo, leo, probeFrom, best, answered, hcatchUp, hcases⟩ :=
      probe_cases hr
    obtain ⟨hn, hR, hcatch⟩ := h.catching n _ hcatchUp
    rcases hcases with rfl | rfl
    · refine h.of_records hstep rfl rfl rfl (fun c hc => ⟨hn, hR, ?_⟩) (h.ready n)
      cases hc
      exact hcatch
    · refine h.of_records hstep rfl rfl rfl (fun c hc => ⟨hn, hR, ?_⟩) (h.ready n)
      cases hc
      exact hcatch.probe hsettled
  | @choose n r hr =>
    obtain ⟨topics, peers, leo, probeFrom, best, answered, hcatchUp, hcases⟩ := choose_cases hr
    obtain ⟨hn, hR, hcatch⟩ := h.catching n _ hcatchUp
    have hchoose := hok _ hcatchUp
    rcases hcases with rfl | ⟨source, page, rfl, -, rfl⟩
    · exact h.of_records hstep rfl rfl rfl (fun c hc => (hnever hc).elim) (h.ready n)
    · refine h.of_records hstep rfl rfl rfl (fun c hc => ⟨hn, hR, ?_⟩) (h.ready n)
      cases hc
      exact hcatch.choose hR hchoose
  | @applyFrame n r hr =>
    obtain ⟨topics, peers, source, hwm, f, frames, last, answered, hcatchUp, hcases⟩ :=
      applyFrame_cases hr
    obtain ⟨hn, hR, hcatch⟩ := h.catching n _ hcatchUp
    rcases hcases with rfl | ⟨r₁, happend, rfl⟩
    · exact h.of_records hstep rfl rfl rfl (fun c hc => (hnever hc).elim) (h.ready n)
    · refine h.of_update hstep (m := n) rfl rfl (fun c hc => ⟨hn, hR, ?_⟩) fun x hx => ?_
      · cases hc
        refine hcatch.applyFrame happend ?_ rfl (fun x hx => hx.step hstep nofun)
          fun m x hx => hx.step hstep
        rw [setReplica_self]
        rfl
      · refine (h.ready n x ?_).step hstep nofun
        rw [← (appendRawFrame_same happend).2]
        exact hx
  | @nextPage n ok r hr =>
    obtain ⟨topic, topics, peers, source, hwm, last, answered, hcatchUp, hcases⟩ :=
      nextPage_cases hr
    obtain ⟨hn, hR, hcatch⟩ := h.catching n _ hcatchUp
    rcases hcases with rfl | ⟨hdone, -, rfl⟩ | ⟨-, -, rfl⟩ | rfl
    · exact h.of_records hstep rfl rfl rfl (fun c hc => (hnever hc).elim) (h.ready n)
    · exact h.of_records hstep rfl rfl rfl (fun c hc => (hnever hc).elim) (hcatch.finished hdone)
    · exact h.of_records hstep rfl rfl rfl
        (fun c hc => ⟨hn, hR, .beginTopic h.acknowledged hc⟩) (h.ready n)
    · refine h.of_records hstep rfl rfl rfl (fun c hc => ⟨hn, hR, ?_⟩) (h.ready n)
      cases hc
      exact hcatch.nextPage hsettled _
  | @restart n keep =>
    refine h.of_update hstep (m := n) rfl rfl (fun c hc => (hnever hc).elim) fun x hx => ?_
    cases hx

theorem fresh_settled {shard : Nat} {fsync : FsyncMode} (hfsync : fsync ≠ .os)
    (hleader : p.leaderId ∈ p.replicas) :
    Settled p.replicas.toFinset (p.quorum nodes) (fresh nodes shard fsync p) := by
  have hp : PlacementSettled p.replicas.toFinset (p.quorum nodes) nodes p :=
    ⟨rfl, rfl, mem_toFinset.mpr hleader⟩
  refine ⟨fresh_fsynced hfsync, fun p' hp' => ?_, fun _ => hp⟩
  rw [List.mem_singleton.mp hp']
  exact hp

/-- **Acknowledged records survive failover.** From empty logs, in every run whose steps meet the
conditions, every node holds all the records that had been acknowledged when it last marked the
shard ready, at their offsets. -/
theorem acknowledged_survives {nodes : List NodeId} {shard : Nat} {fsync : FsyncMode}
    {p : Placement}
    {events : List Event} (hfsync : fsync ≠ .os) (hleader : p.leaderId ∈ p.replicas)
    (hrun : Run step (FailoverOk p.replicas.toFinset (p.quorum nodes)) (fresh nodes shard fsync p)
      events s) : ∀ n, ∀ x ∈ (s.replicas n).mustHold, s.HasRecord n x := by
  set R := p.replicas.toFinset
  set q := p.quorum nodes
  have hinv : Settled R q s ∧ PublishesOk s ∧ (∀ p ∈ s.publishings, PublishingSettled R q p) ∧
      FailoverInv R q s := by
    refine hrun.invariant (fun s => Settled R q s ∧ PublishesOk s ∧
      (∀ p ∈ s.publishings, PublishingSettled R q p) ∧ FailoverInv R q s) ?_ ?_
    · rintro t e t' ⟨hsettled, hpublishes, hreplicas, hinv⟩ hok hstep
      exact ⟨hsettled.step hok hstep, hpublishes.step hsettled.fsynced hstep,
        PublishingSettled.step hreplicas hsettled hstep,
        hinv.step hsettled hpublishes hreplicas hok hstep⟩
    · refine ⟨fresh_settled hfsync hleader, fresh_publishesOk, ?_, ⟨?_, ?_, ?_⟩⟩
      · exact nofun
      · exact nofun
      · exact fun n c hc => absurd hc.symm (some_ne_none c)
      · exact nofun
  exact hinv.2.2.2.ready

end Quorum

/-! ## Three nodes -/

instance (as bs : List Uuid) : Decidable (Comparable as bs) :=
  inferInstanceAs (Decidable (as <+: bs ∨ bs <+: as))

-- along the list: there are too many nodes to try
instance decForallNode {ns : List NodeId} {P : NodeId → Prop} [DecidablePred P] :
    Decidable (∀ n ∈ ns, P n) :=
  List.decidableBAll _ _

instance (R : Finset NodeId) (q : Nat) (s : Cluster) (n : NodeId) (c : CatchUp) :
    Decidable (ChooseOk R q s n c) := by
  unfold ChooseOk
  split <;> infer_instance

instance (R : Finset NodeId) (q : Nat) (s : Cluster) (e : Event) :
    Decidable (FailoverOk R q s e) := by
  apply @Event.casesOn (fun e => Decidable (FailoverOk R q s e)) e <;> intros
  case command c =>
    apply @ControllerCommand.casesOn (fun c => Decidable (FailoverOk R q s (.command c))) c <;>
      intros <;> unfold FailoverOk <;> infer_instance
  all_goals (unfold FailoverOk; infer_instance)

/-- Node 1 publishes a record that nodes 1 and 2 fsync, and acknowledges it. -/
def acknowledgedPublish : List Event :=
  takeOver 1 0 ++ .observe 2 0 true :: publishPlain 1 0 10 ++
    [.accept 0 2, .appendFrame 0, .flush 2, .finish 0, .receive 0 2, .flush 1, .acknowledge 0]

/-- Node 3 is made the leader and catches up from both peers. -/
def catchUpFromPeers : List Event :=
  [.command (.acquireShardLeadership 3), .observe 3 1 true, .gain 3 ["orders"] [1, 2],
    .probe 3 true, .probe 3 true, .choose 3, .applyFrame 3, .flush 3, .nextPage 3 true]

theorem acknowledged_survives_catchUp : ∃ s,
    Run step (FailoverOk {1, 2, 3} 2) threeNodes (acknowledgedPublish ++ catchUpFromPeers) s ∧
      (s.replicas 3).mustHold = [(0, 10)] ∧ s.HasRecord 3 (0, 10) := by
  refine exists_and₂_of (by decide +kernel) fun s hrun hmust => ?_
  refine acknowledged_survives (p := ⟨1, 1, [1, 2, 3], 2, []⟩) (by decide) (by decide) hrun 3 _ ?_
  rw [hmust]
  exact List.mem_singleton.mpr rfl

/-- **A lonely leader.** Node 3 is made the leader while it sees no peer alive: it marks the shard
ready and serves it without the acknowledged record. -/
theorem lonely_leader_lacks_acknowledged : ∃ s,
    AnyRun step threeNodes (acknowledgedPublish ++
      [.command (.acquireShardLeadership 3), .observe 3 1 true, .gain 3 ["orders"] []]) s ∧
      (0, 10) ∈ s.acknowledged ∧ (s.replicas 3).isLeader 3 = true ∧
      (0, 10) ∈ (s.replicas 3).mustHold ∧ ¬s.HasRecord 3 (0, 10) := by
  unfold HasRecord
  decide +kernel

end Cluster

end BetterMQ
