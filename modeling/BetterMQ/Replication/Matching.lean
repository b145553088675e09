import BetterMQ.Lib.Lineage
import BetterMQ.Replication.Steps
import BetterMQ.Storage.Durability

/-!
# Log matching

Do two nodes that hold one record at one offset hold the same records below it? `append_raw_frame`
compares the offset of a frame with the end of the log and nothing with the record before it, so a
follower that kept the record of one leader can go on with the records of another.

* **`log_matching`** — logs match in every state of a run in which every appended frame follows the
  record it followed on its sender;
* **`follower_skips_divergence`** — they do not when a follower misses the frame at which the
  leaders diverge.
-/

namespace BetterMQ

open Function List Option

namespace Cluster

variable {s s' : Cluster} {e : Event}

/-- Node `n` still holds the record `id` at this offset. -/
def Holds (s : Cluster) (n : NodeId) (offset : Nat) (id : Uuid) : Prop :=
  (logIds (s.replicas n).log.records)[offset]? = some id ∧ offset ∉ (s.replicas n).removed

/-- **Log matching**: nodes that hold one id at one offset hold the same ids below it. -/
def LogMatching (s : Cluster) : Prop :=
  ∀ n m k id, s.Holds n k id → s.Holds m k id →
    ∀ j < k, ∀ a b, s.Holds n j a → s.Holds m j b → a = b

/-- Published ids are new, and a frame is appended only after the record it follows on its
sender. -/
def MatchOk (s : Cluster) (e : Event) : Prop :=
  (match e with
    | .append _ items => (s.published ++ logIds items).Nodup
    | _ => True) ∧
  ∀ d ∈ s.delivered e, d.2.offset = (s.replicas d.1).log.records.length →
    (logIds (s.replicas d.1).log.records).getLast? = d.2.before

/-! ## The lineage of the published records -/

/-- All logs grow along one lineage, and so do the frames on their way. -/
structure Matched (P : Uuid → List Uuid) (s : Cluster) : Prop where
  logs : ∀ n, Lineage P (logIds (s.replicas n).log.records)
  frames : ∀ f, s.InFlight f → P f.id = f.before.elim [] P ++ [f.id]
  known : ∀ n, ∀ id ∈ logIds (s.replicas n).log.records, id ∈ s.published
  sent : ∀ f, s.InFlight f → f.id ∈ s.published ∧ ∀ id ∈ f.before, id ∈ s.published

theorem logIds_append (xs ys : List Item) : logIds (xs ++ ys) = logIds xs ++ logIds ys :=
  map_append

/-- The ids a step publishes. -/
def newIds : Event → List Uuid
  | .append _ items => logIds items
  | _ => []

theorem step_published (h : s.step e = some s') : s'.published = s.published ++ newIds e := by
  cases step_steps h with
  | append => rfl
  | _ => exact (append_nil _).symm

variable {P : Uuid → List Uuid} {f : ReplicaFrame} {n : NodeId}

/-- A frame read from a log of the lineage follows the lineage. -/
theorem ReadFrom.lineage {records : List Item} (h : ReadFrom records f)
    (hlog : Lineage P (logIds records)) :
    P f.id = f.before.elim [] P ++ [f.id] ∧ f.id ∈ logIds records ∧
      ∀ id ∈ f.before, id ∈ logIds records := by
  obtain ⟨g, hg, -, hid, hbefore⟩ := h
  rw [hid, hbefore]
  obtain ⟨item, hitem, hframe⟩ := map_eq_some_iff.mp hg
  generalize g.offset = k at hitem hframe
  subst hframe
  have hk : (logIds records)[k]? = some item.1.id := by
    rw [logIds, getElem?_map, hitem]
    rfl
  have htake := hlog k item.1.id hk
  cases k with
  | zero =>
    refine ⟨htake.trans ?_, mem_of_getElem? hk, nofun⟩
    rw [take_add_one, hk]
    rfl
  | succ j =>
    -- the record before it is there, and its lineage is the rest of the log
    obtain ⟨hlt, -⟩ := List.getElem?_eq_some_iff.mp hk
    have hj : (logIds records)[j]? = some (logIds records)[j] :=
      getElem?_eq_getElem (Nat.lt_of_succ_lt hlt)
    have hprev : (if j + 1 = 0 then none else (logIds records)[j + 1 - 1]?)
        = some (logIds records)[j] := by
      exact hj
    refine ⟨?_, mem_of_getElem? hk, ?_⟩
    · rw [hprev, elim_some, hlog j _ hj]
      refine htake.trans ?_
      rw [take_add_one, hk]
      rfl
    · rw [hprev]
      rintro id ⟨⟩
      exact mem_of_getElem? hj

/-- A step that keeps the lineage of what was published, and along which all logs follow it. -/
theorem Matched.of_logs {P P' : Uuid → List Uuid} (h : Matched P s) (hstep : s.step e = some s')
    (hsame : ∀ id ∈ s.published, P' id = P id)
    (hlogs : ∀ n, Lineage P' (logIds (s'.replicas n).log.records))
    (hknown : ∀ n, ∀ id ∈ logIds (s'.replicas n).log.records, id ∈ s'.published) :
    Matched P' s' := by
  have hmono : ∀ id ∈ s.published, id ∈ s'.published := by
    intro id hid
    rw [step_published hstep]
    exact mem_append_left _ hid
  refine ⟨hlogs, ?_, hknown, ?_⟩
  · intro f hf
    rcases step_inFlight hstep hf with hold | ⟨n, hread⟩
    · obtain ⟨hid, hbefore⟩ := h.sent f hold
      rw [hsame _ hid, h.frames f hold]
      cases hb : f.before with
      | none => rfl
      | some id => rw [elim_some, elim_some, hsame id (hbefore id hb)]
    · exact (hread.lineage (hlogs n)).1
  · intro f hf
    rcases step_inFlight hstep hf with hold | ⟨n, hread⟩
    · obtain ⟨hid, hbefore⟩ := h.sent f hold
      exact ⟨hmono _ hid, fun id hb => hmono id (hbefore id hb)⟩
    · obtain ⟨-, hid, hbefore⟩ := hread.lineage (hlogs n)
      exact ⟨hknown n _ hid, fun id hb => hknown n id (hbefore id hb)⟩

/-- A frame that follows its predecessor continues the lineage of the log. -/
theorem Matched.concat (h : Matched P s) (hf : s.InFlight f)
    (hbefore : (logIds (s.replicas n).log.records).getLast? = f.before) :
    Lineage P (logIds (s.replicas n).log.records ++ [f.id]) := by
  refine (h.logs n).concat ?_
  rw [h.frames f hf, ← hbefore]
  cases hlast : (logIds (s.replicas n).log.records).getLast? with
  | none => rw [getLast?_eq_none_iff.mp hlast, elim_none]
  | some id => rw [elim_some, (h.logs n).eq_of_getLast? hlast]

theorem logIds_crash (log : DurableLog Item) (keep : Nat) :
    logIds (log.crash keep).records <+: logIds log.records :=
  (log.crash_isPrefix keep).map _

theorem Matched.logChange (h : Matched P s) (hok : MatchOk s e)
    (hnot : ∀ i items, e ≠ .append i items) {log : DurableLog Item}
    (hchange : LogChange s e n log) :
    Lineage P (logIds log.records) ∧ ∀ id ∈ logIds log.records, id ∈ s.published := by
  cases hchange with
  | same | sync => exact ⟨h.logs n, h.known n⟩
  | crash keep he =>
    have hpre := logIds_crash (s.replicas n).log keep
    exact ⟨(h.logs n).of_isPrefix hpre, fun id hid => h.known n id (hpre.subset hid)⟩
  | publish i items p he => exact absurd he (hnot i items)
  | frame f hf hoffset =>
    have hflight := inFlight_of_delivered hf
    rw [DurableLog.records_append, logIds_append]
    refine ⟨h.concat hflight (hok.2 (n, f) hf hoffset), fun id hid => ?_⟩
    rcases mem_snoc.mp hid with hold | rfl
    · exact h.known n id hold
    · exact (h.sent f hflight).1

/-- **One step** of a run in which frames follow their predecessors. -/
theorem Matched.step (h : Matched P s) (hok : MatchOk s e) (hstep : s.step e = some s') :
    ∃ P', Matched P' s' := by
  have hpublished := step_published hstep
  by_cases happend : ∃ i items, e = .append i items
  · -- a publish gives the new ids the log of its leader as their lineage
    obtain ⟨i, items, rfl⟩ := happend
    obtain ⟨hnodup, hdisjoint⟩ := (nodup_append.mp hok.1).2
    cases step_steps hstep with
    | @append _ _ p hp halive hframes hitems =>
      have hfresh : ∀ id ∈ logIds items, id ∉ s.published :=
        fun id hid hold => hdisjoint id hold id hid rfl
      have hleader : ((s.publishItems i p items).replicas p.leader).log.records
          = (s.replicas p.leader).log.records ++ items := by
        show (update s.replicas p.leader _ p.leader).log.records = _
        rw [update_self]
        rfl
      have hother : ∀ n, n ≠ p.leader →
          (s.publishItems i p items).replicas n = s.replicas n := fun n hn =>
        update_of_ne hn _ _
      refine ⟨Lineage.extend P (logIds (s.replicas p.leader).log.records) (logIds items),
        h.of_logs hstep ?_ ?_ ?_⟩
      · exact fun id hid => Lineage.extend_of_not_mem fun hnew => hfresh id hnew hid
      · intro n
        by_cases hn : n = p.leader
        · subst hn
          rw [hleader, logIds_append]
          exact (h.logs p.leader).append hnodup
            fun id hid hold => hfresh id hid (h.known p.leader id hold)
        · rw [hother n hn]
          exact (h.logs n).congr fun id hid =>
            Lineage.extend_of_not_mem fun hnew => hfresh id hnew (h.known n id hid)
      · intro n id hid
        by_cases hn : n = p.leader
        · subst hn
          rw [hleader, logIds_append] at hid
          rcases mem_append.mp hid with hold | hnew
          · exact mem_append_left _ (h.known p.leader id hold)
          · exact mem_append_right _ hnew
        · rw [hother n hn] at hid
          exact mem_append_left _ (h.known n id hid)
  · have hnot : ∀ i items, e ≠ .append i items := fun i items he => happend ⟨i, items, he⟩
    refine ⟨P, h.of_logs hstep (fun _ _ => rfl) ?_ ?_⟩
    · exact fun n => (h.logChange hok hnot (step_logChange hstep n)).1
    · intro n id hid
      rw [hpublished]
      exact mem_append_left _ ((h.logChange hok hnot (step_logChange hstep n)).2 id hid)

theorem fresh_matched (nodes : List NodeId) (shard : Nat) (fsync : FsyncMode) (p : Placement) :
    Matched (fun _ => []) (fresh nodes shard fsync p) := by
  have hnone : ∀ f, ¬(fresh nodes shard fsync p).InFlight f := by
    rintro f (⟨p, hp, -⟩ | ⟨n, c, hc, -⟩)
    · cases hp
    · cases hc
  exact ⟨fun _ => .nil, fun f hf => absurd hf (hnone f), nofun, fun f hf => absurd hf (hnone f)⟩

/-- **Log matching over runs.** From empty logs, with any order, loss and duplication of messages
and any number of leader changes, the logs match in every state of a run in which every appended
frame follows the record it followed on its sender. -/
theorem log_matching {nodes : List NodeId} {shard : Nat} {fsync : FsyncMode} {p : Placement}
    {events : List Event} (hrun : Run step MatchOk (fresh nodes shard fsync p) events s) :
    s.LogMatching := by
  obtain ⟨P, hmatched⟩ : ∃ P, Matched P s := by
    refine hrun.invariant (fun s => ∃ P, Matched P s) ?_ ⟨_, fresh_matched nodes shard fsync p⟩
    rintro t e t' ⟨P, ht⟩ hok hstep
    exact ht.step hok hstep
  intro n m k id hn hm j hj a b ha hb
  have hsame := (hmatched.logs n).agree (hmatched.logs m) hn.1 hm.1 hj.le
  rw [ha.1, hb.1] at hsame
  exact Option.some.inj hsame

instance (s : Cluster) (e : Event) : Decidable (MatchOk s e) := by
  cases e <;> unfold MatchOk <;> infer_instance

/-! ## Three nodes -/

/-- Nodes 1, 2 and 3 hold the shard; node 1 leads it. -/
def threeNodes : Cluster :=
  fresh [1, 2, 3] 0 .always ⟨1, 1, [1, 2, 3], 2, []⟩

/-- A node that sees the latest placement leads the shard. -/
def takeOver (n : NodeId) (placement : Nat) : List Event :=
  [.observe n placement true, .observe 3 placement true, .gain n [] []]

/-- The leader publishes the record `id` as publish `i`; its request is sent. -/
def publishPlain (n : NodeId) (i id : Nat) : List Event :=
  [.startPublish n, .append i [(plainRecord id, [])], .send i]

/-- Node 3 takes the request of publish `i` as its `h`th one. -/
def followPlain (i h : Nat) : List Event := [.accept i 3, .appendFrame h]

/-- Node 3 takes the record of node 1. Node 2 leads after it, with an empty log. -/
def leaderChange : List Event :=
  takeOver 1 0 ++ publishPlain 1 0 10 ++ followPlain 0 0 ++
    .command (.acquireShardLeadership 2) :: takeOver 2 1

theorem log_matching_after_leaderChange : ∃ s,
    Run step MatchOk threeNodes (leaderChange ++ publishPlain 2 1 11 ++ followPlain 1 1) s ∧
      s.LogMatching := by
  exact exists_and_of (by decide +kernel) fun s hrun => log_matching hrun

/-- **Diverged logs meet.** Node 2 publishes two records, and node 3 takes only the second one: it
holds the record of node 1 below it, node 2 its own. -/
theorem follower_skips_divergence : ∃ s,
    AnyRun step threeNodes
      (leaderChange ++ publishPlain 2 1 11 ++ publishPlain 2 2 12 ++ followPlain 2 1) s ∧
      s.Holds 2 1 12 ∧ s.Holds 3 1 12 ∧ s.Holds 2 0 11 ∧ s.Holds 3 0 10 ∧ ¬s.LogMatching := by
  obtain ⟨s, hrun, htwo, hthree, hkept, hkept'⟩ : ∃ s, AnyRun step threeNodes
      (leaderChange ++ publishPlain 2 1 11 ++ publishPlain 2 2 12 ++ followPlain 2 1) s ∧
      logIds (s.replicas 2).log.records = [11, 12] ∧ logIds (s.replicas 3).log.records = [10, 12] ∧
      (s.replicas 2).removed = [] ∧ (s.replicas 3).removed = [] := by decide +kernel
  have hold : ∀ k id, [11, 12][k]? = some id → s.Holds 2 k id := by
    intro k id hk
    exact ⟨by rw [htwo]; exact hk, by rw [hkept]; exact not_mem_nil⟩
  have hold' : ∀ k id, [10, 12][k]? = some id → s.Holds 3 k id := by
    intro k id hk
    exact ⟨by rw [hthree]; exact hk, by rw [hkept']; exact not_mem_nil⟩
  refine ⟨s, hrun, hold 1 12 rfl, hold' 1 12 rfl, hold 0 11 rfl, hold' 0 10 rfl, ?_⟩
  intro hmatch
  have heq := hmatch 2 3 1 12 (hold 1 12 rfl) (hold' 1 12 rfl) 0 Nat.one_pos 11 10 (hold 0 11 rfl)
    (hold' 0 10 rfl)
  exact absurd heq (by decide)

end Cluster

end BetterMQ
