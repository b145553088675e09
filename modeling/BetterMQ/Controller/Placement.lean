import BetterMQ.Controller.State
import Mathlib.Data.Finset.Card
import Mathlib.Data.List.Rotate

/-!
# Placing the replicas of a shard

`place_replicas` goes around the ring of brokers twice, from the shard's own start: first it takes
brokers of racks not used yet, then any broker not taken yet.

* **`chooseByRack_spec`**, **`chooseAny_spec`** — what a pass takes, and why it leaves the others;
* **`placeReplicas_spec`** — as many distinct brokers as asked for and there are, on as many racks
  as that allows.
-/

namespace BetterMQ.Controller

open List

variable {nodes : List DataNodeRecord} {rf : Nat}

/-- An empty name is no rack. -/
def DataNodeRecord.rackName (n : DataNodeRecord) : String := n.rack.getD ""

/-! ## The passes -/

theorem chooseByRack_cases (rf : Nat) (chosen : List Uuid × List String) (node : DataNodeRecord) :
    (chooseByRack rf chosen node = chosen ∧
      (rf ≤ chosen.1.length ∨ node.rackName ∈ chosen.2)) ∨
    ∃ racks, chooseByRack rf chosen node = (chosen.1 ++ [node.id], racks) ∧ chosen.1.length < rf ∧
      (node.rackName ≠ "" → racks = node.rackName :: chosen.2 ∧ node.rackName ∉ chosen.2) := by
  unfold chooseByRack
  split
  · next hfull => exact .inl ⟨rfl, .inl hfull⟩
  · next hroom =>
    dsimp only
    split
    · next hused => exact .inl ⟨rfl, .inr hused.2⟩
    · next hnew =>
      refine .inr ⟨_, rfl, Nat.not_le.mp hroom, fun hrack => ⟨if_pos hrack, fun hmem => ?_⟩⟩
      exact hnew ⟨hrack, hmem⟩

/-- The first pass takes no more than asked for, and when all have racks then none of these twice;
if it takes fewer, the racks are used up. -/
theorem chooseByRack_spec {chosen : List Uuid × List String} (hlen : chosen.1.length ≤ rf) :
    let r := nodes.foldl (chooseByRack rf) chosen
    ∃ taken, taken <+ nodes ∧ r.1 = chosen.1 ++ taken.map (·.id) ∧ r.1.length ≤ rf ∧
      ((∀ n ∈ nodes, n.rackName ≠ "") →
        r.2 = (taken.map (·.rackName)).reverse ++ chosen.2 ∧ (chosen.2.Nodup → r.2.Nodup) ∧
          (rf ≤ r.1.length ∨ ∀ n ∈ nodes, n.rackName ∈ r.2)) := by
  induction nodes generalizing chosen with
  | nil => exact ⟨[], .slnil, by simp, hlen, fun _ => ⟨rfl, id, .inr nofun⟩⟩
  | cons node nodes ih =>
    rw [foldl_cons]
    rcases chooseByRack_cases rf chosen node with ⟨heq, hwhy⟩ | ⟨racks, heq, hroom, hrack⟩
    · rw [heq]
      obtain ⟨taken, hsub, hids, hle, hracks⟩ := ih hlen
      refine ⟨taken, hsub.cons node, hids, hle, fun hall => ?_⟩
      grind
    · rw [heq]
      obtain ⟨taken, hsub, hids, hle, hracks⟩ := @ih (chosen.1 ++ [node.id], racks) (by grind)
      refine ⟨node :: taken, hsub.cons_cons node, ?_, hle, fun hall => ?_⟩
      · rw [hids, append_assoc]
        rfl
      · obtain ⟨rfl, hfresh⟩ := hrack (hall node (.head _))
        obtain ⟨hused, hnodup, hstop⟩ := hracks fun n hn => hall n (.tail _ hn)
        refine ⟨by simp [hused], fun h => hnodup (nodup_cons.mpr ⟨hfresh, h⟩), ?_⟩
        exact hstop.imp_right fun hrest => forall_mem_cons.mpr ⟨by simp [hused], hrest⟩

/-- The second pass keeps what is chosen and adds other nodes, until there are enough or all. -/
theorem chooseAny_spec {chosen : List Uuid} (hnodup : chosen.Nodup) (hlen : chosen.length ≤ rf) :
    let ids := nodes.foldl (chooseAny rf) chosen
    chosen <+: ids ∧ ids ⊆ chosen ++ nodes.map (·.id) ∧ ids.Nodup ∧ ids.length ≤ rf ∧
      (rf ≤ ids.length ∨ ∀ n ∈ nodes, n.id ∈ ids) := by
  induction nodes generalizing chosen with
  | nil => exact ⟨prefix_rfl, by simp, hnodup, hlen, .inr nofun⟩
  | cons node nodes ih =>
    rw [foldl_cons, chooseAny]
    split
    · next hskip =>
      obtain ⟨hpre, hsub, hdistinct, hle, hstop⟩ := ih hnodup hlen
      refine ⟨hpre, ?_, hdistinct, hle, ?_⟩
      · grind
      · grind
    · next hnew =>
      obtain ⟨hpre, hsub, hdistinct, hle, hstop⟩ := @ih (chosen ++ [node.id]) (by grind) (by grind)
      have := hpre.subset
      refine ⟨(prefix_append _ _).trans hpre, ?_, hdistinct, hle, ?_⟩
      · grind
      · grind

/-! ## Both passes -/

/-- The racks of the brokers with these ids. -/
def racksOf (brokers : List DataNodeRecord) (ids : List Uuid) : Finset String :=
  ((brokers.filter fun n => n.id ∈ ids).map (·.rackName)).toFinset

theorem mem_racksOf {ids : List Uuid} {r : String} :
    r ∈ racksOf nodes ids ↔ ∃ n ∈ nodes, n.id ∈ ids ∧ n.rackName = r := by
  simp [racksOf, and_assoc]

theorem racksOf_card_le {ids : List Uuid} (hids : (nodes.map (·.id)).Nodup) :
    (racksOf nodes ids).card ≤ ids.length := by
  refine (toFinset_card_le _).trans ?_
  have hnodup : ((nodes.filter fun n => n.id ∈ ids).map (·.id)).Nodup :=
    hids.sublist (filter_sublist.map _)
  have hsub : (nodes.filter fun n => n.id ∈ ids).map (·.id) ⊆ ids := by
    intro id hid
    grind
  simpa using (hnodup.subperm hsub).length_le

/-- **The passes over a ring of brokers.** -/
theorem passes_spec {ring : List DataNodeRecord} (hids : (ring.map (·.id)).Nodup)
    (hrf : rf ≤ ring.length) :
    let ids := ring.foldl (chooseAny rf) (ring.foldl (chooseByRack rf) ([], [])).1
    ids.length = rf ∧ ids.Nodup ∧ ids ⊆ ring.map (·.id) ∧
      ((∀ n ∈ ring, n.rackName ≠ "") → (racksOf ring ids).card
        = min rf (ring.map (·.rackName)).toFinset.card) := by
  obtain ⟨first, hsub, heq, hle, hracks⟩ :=
    @chooseByRack_spec ring rf ([], []) (Nat.zero_le rf)
  rw [nil_append] at heq
  rw [heq] at hle hracks ⊢
  obtain ⟨hpre, hmem, hnodup, hle, hstop⟩ := chooseAny_spec (hids.sublist (hsub.map _)) hle
  set ids := ring.foldl (chooseAny rf) (first.map (·.id))
  have hlen : ids.length = rf := by
    refine hle.antisymm (hstop.elim id fun hall => hrf.trans ?_)
    -- every broker is taken, and the ids differ
    have hsub : ring.map (·.id) ⊆ ids := by simpa [subset_def] using hall
    simpa using (hids.subperm hsub).length_le
  refine ⟨hlen, hnodup, fun id hid => ?_, fun hall => ?_⟩
  · rcases mem_append.mp (hmem hid) with hfirst | hring
    · exact (hsub.map _).subset hfirst
    · exact hring
  · obtain ⟨hused, hdistinct, hwhy⟩ := hracks hall
    rw [append_nil] at hused
    rw [hused] at hdistinct hwhy
    have hcovered : (first.map (·.rackName)).toFinset ⊆ racksOf ring ids := by
      intro r hr
      obtain ⟨n, hn, rfl⟩ := mem_map.mp (mem_toFinset.mp hr)
      exact mem_racksOf.mpr ⟨n, hsub.subset hn, hpre.subset (mem_map_of_mem hn), rfl⟩
    refine le_antisymm (le_min ?_ (Finset.card_le_card fun r hr => ?_)) ?_
    · exact (racksOf_card_le hids).trans hlen.le
    · obtain ⟨n, hn, -, rfl⟩ := mem_racksOf.mp hr
      exact mem_toFinset.mpr (mem_map_of_mem hn)
    · rcases hwhy with hfull | hall
      · refine (min_le_left _ _).trans (le_trans ?_ (Finset.card_le_card hcovered))
        rw [toFinset_card_of_nodup (nodup_reverse.mp (hdistinct .nil))]
        simpa using hfull
      · refine (min_le_right _ _).trans (Finset.card_le_card (subset_trans ?_ hcovered))
        intro r hr
        obtain ⟨n, hn, rfl⟩ := mem_map.mp (mem_toFinset.mp hr)
        exact mem_toFinset.mpr (mem_reverse.mp (hall n hn))

/-- With brokers there, the passes go over a ring of all of them. -/
theorem placeReplicas_ring (shard rf : Nat) (hids : (nodes.map (·.id)).Nodup)
    (hbrokers : nodes.filter (·.broker) ≠ []) :
    ∃ ring n, ring ~ nodes.filter (·.broker) ∧ (ring.map (·.id)).Nodup ∧ n ≤ ring.length ∧
      n = min (max rf 1) (nodes.filter (·.broker)).length ∧ placeReplicas nodes shard rf
        = ring.foldl (chooseAny n) (ring.foldl (chooseByRack n) ([], [])).1 := by
  have hpos := length_pos_iff.mpr hbrokers
  have hperm := rotate_perm (nodes.filter (·.broker)) (shard % (nodes.filter (·.broker)).length)
  refine ⟨_, _, hperm, (hperm.map _).nodup_iff.mpr (hids.sublist (filter_sublist.map _)), ?_, ?_,
    by rw [placeReplicas, if_neg hbrokers]⟩
  · rw [hperm.length_eq, clampFromOne]
    omega
  · rw [clampFromOne]
    omega

/-- **Placement**, for nodes with distinct ids and any racks. -/
theorem placeReplicas_spec (shard rf : Nat) (hids : (nodes.map (·.id)).Nodup) :
    let brokers := nodes.filter (·.broker)
    let ids := placeReplicas nodes shard rf
    ids.length = min (max rf 1) brokers.length ∧ ids.Nodup ∧
      (∀ id ∈ ids, ∃ n ∈ nodes, n.broker = true ∧ n.id = id) ∧
      ((∀ n ∈ brokers, n.rackName ≠ "") →
        (racksOf brokers ids).card
          = min (min (max rf 1) brokers.length) (brokers.map (·.rackName)).toFinset.card) := by
  intro brokers ids
  by_cases hnone : brokers = []
  · have : ids = [] := if_pos hnone
    simp [this, hnone, racksOf]
  · obtain ⟨ring, n, hperm, hnodup, hrf, hn, heq⟩ := placeReplicas_ring shard rf hids hnone
    obtain ⟨hlen, hdistinct, hmem, hracks⟩ := passes_spec hnodup hrf
    rw [← heq] at hlen hdistinct hmem hracks
    rw [hn] at hlen hracks
    refine ⟨hlen, hdistinct, fun id hid => ?_, fun hall => ?_⟩
    · obtain ⟨n, hn, rfl⟩ := mem_map.mp (hmem hid)
      have hbroker := mem_filter.mp (hperm.subset hn)
      exact ⟨n, hbroker.1, hbroker.2, rfl⟩
    · rw [racksOf, ← toFinset_eq_of_perm _ _ ((hperm.filter _).map _),
        ← toFinset_eq_of_perm _ _ (hperm.map _)]
      exact hracks fun n hn => hall n (hperm.subset hn)

def threeBrokers : List DataNodeRecord :=
  [⟨1, "", some "a", none, true, false⟩, ⟨2, "", some "a", none, true, false⟩,
    ⟨3, "", some "b", none, true, false⟩]

theorem two_replicas_on_two_racks :
    (racksOf (threeBrokers.filter (·.broker)) (placeReplicas threeBrokers 0 2)).card = 2 :=
  (placeReplicas_spec 0 2 (by decide)).2.2.2 (by decide)

end BetterMQ.Controller
