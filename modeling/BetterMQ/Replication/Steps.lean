import BetterMQ.Lib.Slots
import BetterMQ.Replication.Machine

/-!
# What a step of the cluster can do

* **`step_logChange`** — a step leaves a log alone, syncs it, cuts it in a restart, or appends to it
  what a publish or a delivered frame brings;
* **`step_inFlight`** — a frame that is on its way was on its way before, or was read from a log.
-/

namespace BetterMQ

open Function List Option

/-! ## Frames on their way -/

/-- The frames a catch-up holds. -/
def CatchUp.frames (c : CatchUp) : List ReplicaFrame :=
  match c.stage with
  | .probing _ _ _ best => best.elim [] fun b => b.2.frames
  | .applying _ _ frames _ => frames

namespace Cluster

variable {s s' : Cluster} {e : Event} {n : NodeId} {f : ReplicaFrame}

/-! ## Steps -/

/-- What a step needs and does. -/
inductive Steps (s : Cluster) : Event → Cluster → Prop where
  | command {c : ControllerCommand} {p p' : Placement} (hp : s.placements.getLast? = some p)
      (hc : applyCommand s.nodes s.shard p c = some p') :
      Steps s (.command c) { s with placements := s.placements ++ [p'] }
  | observe {n : NodeId} {i : Nat} {lease : Bool} {p : Placement} (hp : s.placements[i]? = some p) :
      Steps s (.observe n i lease)
        (s.setReplica n { s.replicas n with placement := p, lease := lease })
  | startPublish {n : NodeId} (hn : (s.replicas n).isLeader n = true) :
      Steps s (.startPublish n) { s with publishings := s.publishings ++ [⟨n, true, [], none, []⟩] }
  | append {i : Nat} {items : List Item} {p : Publishing} (hp : s.publishings[i]? = some p)
      (halive : p.alive = true) (hframes : p.frames = []) (hitems : items ≠ []) :
      Steps s (.append i items) (s.publishItems i p items)
  | send {i : Nat} {p : Publishing} (hp : s.publishings[i]? = some p) (halive : p.alive = true)
      (hframes : p.frames ≠ []) (hrequest : p.request = none) :
      Steps s (.send i) (s.setPublishing i { p with request := some (s.requestOf p) })
  | accept {i : Nat} {peer : NodeId} {p : Publishing} {request : ReplicateRequest}
      (hp : s.publishings[i]? = some p) (hrequest : p.request = some request)
      (hpeer : peer ∈ request.targets)
      (hvalid : (s.replicas peer).validateReplicationEpoch p.leader request.leaderEpoch = true) :
      Steps s (.accept i peer) { s with handlers := s.handlers ++ [⟨i, peer, 0⟩] }
  | appendFrame {h : Nat} {handler : Handler} {p : Publishing} {f : ReplicaFrame} {r : Replica}
      (hh : s.handlers[h]? = some handler) (hp : s.publishings[handler.publishing]? = some p)
      (hf : p.frames[handler.done]? = some f)
      (hr : (s.replicas handler.peer).appendRawFrame f = some r) :
      Steps s (.appendFrame h) { s.setReplica handler.peer r with
        handlers := s.handlers.set h { handler with done := handler.done + 1 } }
  | rejectFrame {h : Nat} : Steps s (.appendFrame h) { s with handlers := s.handlers.eraseIdx h }
  | finish {h : Nat} {handler : Handler} {p : Publishing} (hh : s.handlers[h]? = some handler)
      (hp : s.publishings[handler.publishing]? = some p) (hdone : handler.done = p.frames.length)
      (hcommitted : endOffset p.frames ≤ (s.replicas handler.peer).committed) :
      Steps s (.finish h) { s with
        handlers := s.handlers.eraseIdx h
        acks := s.acks ++ [(handler.publishing, handler.peer)] }
  | receive {i : Nat} {peer : NodeId} {p : Publishing} (hp : s.publishings[i]? = some p)
      (hack : (i, peer) ∈ s.acks) (halive : p.alive = true) (hnew : peer ∉ p.acked) :
      Steps s (.receive i peer) (s.setPublishing i { p with acked := peer :: p.acked })
  | acknowledge {i : Nat} {p : Publishing} {request : ReplicateRequest}
      (hp : s.publishings[i]? = some p) (hrequest : p.request = some request)
      (halive : p.alive = true) (hcommitted : endOffset p.frames ≤ (s.replicas p.leader).committed)
      (hquorum : request.quorum ≤ p.acked.length + 1) :
      Steps s (.acknowledge i) { s.setPublishing i { p with alive := false } with
        acknowledged := s.acknowledged ++ p.frames.map fun f => (f.offset, f.id) }
  | flush {n : NodeId} :
      Steps s (.flush n) (s.setReplica n { s.replicas n with
        log := if s.fsync = .os then (s.replicas n).log else (s.replicas n).log.sync
        committed := (s.replicas n).log.records.length })
  | remove {n : NodeId} {offset : Nat} :
      Steps s (.remove n offset) (s.setReplica n { s.replicas n with
        removed := offset :: (s.replicas n).removed })
  | gain {n : NodeId} {topics : List String} {peers : List NodeId} (hn : n ∈ s.nodes)
      (hleader : (s.replicas n).electLeader = some n) (hidle : (s.replicas n).catchUp = none)
      (hpeers : ∀ peer ∈ peers, peer ∈ s.nodes ∧ peer ≠ n) :
      Steps s (.gain n topics peers) (s.setReplica n (if peers = [] ∨ topics = []
          then s.markReady { s.replicas n with wasLeader := true, blocked := true }
          else beginTopic { s.replicas n with wasLeader := true, blocked := true } topics peers))
  | lose {n : NodeId} :
      Steps s (.lose n) (s.setReplica n { s.replicas n with wasLeader := false })
  | probe {n : NodeId} {ok : Bool} {r : Replica} (hr : s.probe (s.replicas n) ok = some r) :
      Steps s (.probe n ok) (s.setReplica n r)
  | choose {n : NodeId} {r : Replica} (hr : Cluster.choose (s.replicas n) = some r) :
      Steps s (.choose n) (s.setReplica n r)
  | applyFrame {n : NodeId} {r : Replica} (hr : Cluster.applyFrame (s.replicas n) = some r) :
      Steps s (.applyFrame n) (s.setReplica n r)
  | nextPage {n : NodeId} {ok : Bool} {r : Replica} (hr : s.nextPage (s.replicas n) ok = some r) :
      Steps s (.nextPage n ok) (s.setReplica n r)
  | restart {n : NodeId} {keep : Nat} : Steps s (.restart n keep) (s.restart n keep)

theorem step_steps (h : s.step e = some s') : Steps s e s' := by
  cases e with
  | command c =>
    obtain ⟨p, hp, h⟩ := bind_eq_some_iff.mp h
    obtain ⟨p', hp', rfl⟩ := map_eq_some_iff.mp h
    exact .command hp hp'
  | observe m i lease =>
    obtain ⟨p, hp, rfl⟩ := map_eq_some_iff.mp h
    exact .observe hp
  | startPublish m =>
    obtain ⟨hn, ⟨⟩⟩ := ite_none_right_eq_some.mp h
    exact .startPublish hn
  | append i items =>
    obtain ⟨p, hp, h⟩ := bind_eq_some_iff.mp h
    obtain ⟨⟨halive, hframes, hitems⟩, ⟨⟩⟩ := ite_none_right_eq_some.mp h
    exact .append hp halive hframes hitems
  | send i =>
    obtain ⟨p, hp, h⟩ := bind_eq_some_iff.mp h
    obtain ⟨⟨halive, hframes, hrequest⟩, ⟨⟩⟩ := ite_none_right_eq_some.mp h
    exact .send hp halive hframes hrequest
  | accept i peer =>
    obtain ⟨p, hp, h⟩ := bind_eq_some_iff.mp h
    obtain ⟨request, hrequest, h⟩ := bind_eq_some_iff.mp h
    obtain ⟨⟨hpeer, hvalid⟩, ⟨⟩⟩ := ite_none_right_eq_some.mp h
    exact .accept hp hrequest hpeer hvalid
  | appendFrame i =>
    obtain ⟨handler, hh, h⟩ := bind_eq_some_iff.mp h
    obtain ⟨p, hp, h⟩ := bind_eq_some_iff.mp h
    obtain ⟨f, hf, rfl⟩ := map_eq_some_iff.mp h
    split
    · next r hr => exact .appendFrame hh hp hf hr
    · exact .rejectFrame
  | finish i =>
    obtain ⟨handler, hh, h⟩ := bind_eq_some_iff.mp h
    obtain ⟨p, hp, h⟩ := bind_eq_some_iff.mp h
    obtain ⟨⟨hdone, hcommitted⟩, ⟨⟩⟩ := ite_none_right_eq_some.mp h
    exact .finish hh hp hdone hcommitted
  | receive i peer =>
    obtain ⟨p, hp, h⟩ := bind_eq_some_iff.mp h
    obtain ⟨⟨hack, halive, hnew⟩, ⟨⟩⟩ := ite_none_right_eq_some.mp h
    exact .receive hp hack halive hnew
  | acknowledge i =>
    obtain ⟨p, hp, h⟩ := bind_eq_some_iff.mp h
    obtain ⟨request, hrequest, h⟩ := bind_eq_some_iff.mp h
    obtain ⟨⟨halive, hcommitted, hquorum⟩, ⟨⟩⟩ := ite_none_right_eq_some.mp h
    exact .acknowledge hp hrequest halive hcommitted hquorum
  | flush m =>
    cases h
    exact .flush
  | remove m offset =>
    cases h
    exact .remove
  | gain m topics peers =>
    obtain ⟨⟨hn, hleader, -, hidle, hpeers⟩, ⟨⟩⟩ := ite_none_right_eq_some.mp h
    exact .gain hn hleader hidle fun peer hpeer =>
      of_decide_eq_true (all_eq_true.mp hpeers peer hpeer)
  | lose m =>
    obtain ⟨-, ⟨⟩⟩ := ite_none_right_eq_some.mp h
    exact .lose
  | probe m ok =>
    obtain ⟨r, hr, rfl⟩ := map_eq_some_iff.mp h
    exact .probe hr
  | choose m =>
    obtain ⟨r, hr, rfl⟩ := map_eq_some_iff.mp h
    exact .choose hr
  | applyFrame m =>
    obtain ⟨r, hr, rfl⟩ := map_eq_some_iff.mp h
    exact .applyFrame hr
  | nextPage m ok =>
    obtain ⟨r, hr, rfl⟩ := map_eq_some_iff.mp h
    exact .nextPage hr
  | restart m keep =>
    cases h
    exact .restart

/-! ## Deliveries -/

/-- A frame is on its way to some node. -/
def InFlight (s : Cluster) (f : ReplicaFrame) : Prop :=
  (∃ p ∈ s.publishings, f ∈ p.frames) ∨ ∃ n, ∃ c ∈ (s.replicas n).catchUp, f ∈ c.frames

/-- The frame a step tries to append, and where. -/
def delivered (s : Cluster) : Event → Option (NodeId × ReplicaFrame)
  | .appendFrame h =>
    s.handlers[h]?.bind fun handler => s.publishings[handler.publishing]?.bind fun p =>
      p.frames[handler.done]?.map fun f => (handler.peer, f)
  | .applyFrame n =>
    match (s.replicas n).catchUp with
    | some ⟨_, _, .applying _ _ (f :: _) _, _⟩ => some (n, f)
    | _ => none
  | _ => none

theorem inFlight_of_delivered (h : s.delivered e = some (n, f)) : s.InFlight f := by
  cases e with
  | appendFrame i =>
    obtain ⟨handler, -, h⟩ := bind_eq_some_iff.mp h
    obtain ⟨p, hp, h⟩ := bind_eq_some_iff.mp h
    obtain ⟨f', hf, heq⟩ := map_eq_some_iff.mp h
    cases heq
    exact .inl ⟨p, mem_of_getElem? hp, mem_of_getElem? hf⟩
  | applyFrame m =>
    unfold delivered at h
    dsimp only at h
    split at h
    · next hcatchUp =>
      cases h
      exact .inr ⟨n, _, hcatchUp, .head _⟩
    · cases h
  | _ => cases h

/-! ## Logs -/

/-- How a step can change the log of a node. -/
inductive LogChange (s : Cluster) (e : Event) (n : NodeId) : DurableLog Item → Prop where
  | same : LogChange s e n (s.replicas n).log
  | sync : LogChange s e n (s.replicas n).log.sync
  | crash (keep : Nat) (he : e = .restart n keep) : LogChange s e n ((s.replicas n).log.crash keep)
  | publish (i : Nat) (items : List Item) (p : Publishing) (he : e = .append i items)
      (hp : s.publishings[i]? = some p) (hn : p.leader = n) :
      LogChange s e n ((s.replicas n).log.append items)
  | frame (f : ReplicaFrame) (hf : s.delivered e = some (n, f))
      (hoffset : f.offset = (s.replicas n).log.records.length) :
      LogChange s e n ((s.replicas n).log.append [f.item])

variable {r r' : Replica} {m : NodeId} {ok : Bool}

/-- What `append_raw_frame` can do to a node. -/
theorem appendRawFrame_cases (h : r.appendRawFrame f = some r') :
    (r' = r ∧ f.offset < r.log.records.length ∧ (logIds r.log.records)[f.offset]? = some f.id) ∨
      (f.offset = r.log.records.length ∧ r' = { r with log := r.log.append [f.item] }) := by
  unfold Replica.appendRawFrame at h
  dsimp only at h
  split at h
  · next hlt =>
    split at h
    · next hsame =>
      cases h
      exact .inl ⟨rfl, hlt, hsame.2⟩
    · cases h
  · split at h
    · cases h
    · cases h
      exact .inr ⟨by omega, rfl⟩

/-! ## Catch-up steps -/

theorem probe_cases (h : s.probe r ok = some r') :
    ∃ topic topics peers peer todo leo probeFrom best answered,
      r.catchUp = some ⟨topic :: topics, peers,
        .probing (peer :: todo) leo probeFrom best, answered⟩ ∧
      (r' = withCatchUp r ⟨topic :: topics, peers, .probing todo leo probeFrom best, answered⟩ ∨
        r' = withCatchUp r ⟨topic :: topics, peers,
          .probing todo leo probeFrom (betterPage best peer
          ((s.replicas peer).catchUpRange topic probeFrom 4096)), answered ++ [peer]⟩) := by
  unfold probe at h
  split at h
  · next hcatchUp =>
    refine ⟨_, _, _, _, _, _, _, _, _, hcatchUp, ?_⟩
    split at h
    · cases h
      exact .inr rfl
    · cases h
      exact .inl rfl
  · cases h

theorem choose_cases (h : choose r = some r') :
    ∃ topics peers leo probeFrom best answered,
      r.catchUp = some ⟨topics, peers, .probing [] leo probeFrom best, answered⟩ ∧
      (r' = giveUp r ∨ ∃ source page, best = some (source, page) ∧ leo ≤ page.committedHwm ∧
        r' = withCatchUp r
          ⟨topics, peers, .applying source page.committedHwm page.frames none, answered⟩) := by
  unfold choose at h
  split at h
  · next hcatchUp =>
    refine ⟨_, _, _, _, _, _, hcatchUp, ?_⟩
    split at h
    · cases h
      exact .inl rfl
    · next source page =>
      split at h
      · cases h
        exact .inl rfl
      · next hle =>
        cases h
        exact .inr ⟨source, page, rfl, Nat.le_of_not_lt hle, rfl⟩
  · cases h

theorem applyFrame_cases (h : applyFrame r = some r') :
    ∃ topics peers source hwm f frames last answered,
      r.catchUp = some ⟨topics, peers, .applying source hwm (f :: frames) last, answered⟩ ∧
      (r' = giveUp r ∨ ∃ r₁, r.appendRawFrame f = some r₁ ∧ r' = withCatchUp r₁
        ⟨topics, peers, .applying source hwm frames (some f.offset), answered⟩) := by
  unfold applyFrame at h
  split at h
  · next hcatchUp =>
    refine ⟨_, _, _, _, _, _, _, _, hcatchUp, ?_⟩
    split at h
    · next r₁ happend =>
      cases h
      exact .inr ⟨r₁, happend, rfl⟩
    · cases h
      exact .inl rfl
  · cases h

theorem nextPage_cases (h : s.nextPage r ok = some r') :
    ∃ topic topics peers source hwm last answered,
      r.catchUp = some ⟨topic :: topics, peers, .applying source hwm [] last, answered⟩ ∧
      (r' = giveUp r ∨
        (hwm ≤ r.log.records.length ∧ topics = [] ∧ r' = s.markReady r) ∨
        (hwm ≤ r.log.records.length ∧ topics ≠ [] ∧ r' = beginTopic r topics peers) ∨
        r' = withCatchUp r ⟨topic :: topics, peers, .applying source
          ((s.replicas source).catchUpRange topic r.log.records.length 4096).committedHwm
          ((s.replicas source).catchUpRange topic r.log.records.length 4096).frames none,
          answered⟩) := by
  unfold nextPage at h
  split at h
  · next topic topics peers source hwm last answered hcatchUp =>
    refine ⟨topic, topics, peers, source, hwm, last, answered, hcatchUp, ?_⟩
    rw [ite_none_right_eq_some] at h
    replace h := h.2
    dsimp only at h
    by_cases hdone : hwm ≤ r.log.records.length
    · rw [if_pos hdone] at h
      cases topics with
      | nil =>
        cases h
        exact .inr (.inl ⟨hdone, rfl, rfl⟩)
      | cons next rest =>
        cases h
        exact .inr (.inr (.inl ⟨hdone, cons_ne_nil _ _, rfl⟩))
    · rw [if_neg hdone] at h
      split at h
      · split at h
        · cases h
          exact .inl rfl
        · cases h
          exact .inr (.inr (.inr rfl))
      · cases h
        exact .inl rfl
  · cases h

/-! ## Placements -/

theorem step_nodes (h : s.step e = some s') : s'.nodes = s.nodes ∧ s'.fsync = s.fsync := by
  cases step_steps h with
  | _ => exact ⟨rfl, rfl⟩

theorem step_placements (h : s.step e = some s') {p : Placement} (hp : p ∈ s'.placements) :
    p ∈ s.placements ∨ ∃ c, ∃ last ∈ s.placements, e = .command c ∧
      applyCommand s.nodes s.shard last c = some p := by
  cases step_steps h with
  | @command c last p' hlast hc =>
    rcases mem_snoc.mp hp with hold | rfl
    · exact .inl hold
    · exact .inr ⟨c, last, mem_of_getLast? hlast, rfl, hc⟩
  | _ => exact .inl hp

/-! ## Where frames come from -/

/-- The frame says what a log held at its offset and before. -/
def ReadFrom (records : List Item) (f : ReplicaFrame) : Prop :=
  ∃ g, frameAt records g.offset = some g ∧ f.offset = g.offset ∧ f.id = g.id ∧ f.before = g.before

theorem readFrom_of_mem {records : List Item} {offset : Nat} (h : f ∈ framesFrom records offset) :
    ReadFrom records f := by
  obtain ⟨k, -, hk⟩ := mem_filterMap.mp h
  refine ⟨f, ?_, rfl, rfl, rfl⟩
  have hoffset : f.offset = k := by
    obtain ⟨item, -, rfl⟩ := map_eq_some_iff.mp hk
    rfl
  rw [hoffset, hk]

theorem readFrom_of_catchUpRange {topic : String} {fromOffset maxRecords : Nat}
    (h : f ∈ (r.catchUpRange topic fromOffset maxRecords).frames) : ReadFrom r.log.records f := by
  obtain ⟨g, hg, rfl⟩ := mem_map.mp (mem_of_mem_take h)
  obtain ⟨g', hg', hoffset, hid, hbefore⟩ := readFrom_of_mem (mem_of_mem_filter hg)
  exact ⟨g', hg', hoffset, hid, hbefore⟩

/-! ## Nodes -/

/-- A restart finds only fsynced records. -/
def RestartOk (s : Cluster) : Event → Prop
  | .restart n keep => keep ≤ (s.replicas n).log.synced
  | _ => True

/-- What a step does to the node `m` it touches, which it leaves as `r`. -/
structure NodeStep (s : Cluster) (e : Event) (m : NodeId) (r : Replica) : Prop where
  log : LogChange s e m r.log
  placement : r.placement = (s.replicas m).placement ∨ r.placement ∈ s.placements
  /-- The frames of its catch-up were on their way, or come from a page of another node. -/
  frames : ∀ c ∈ r.catchUp, ∀ f ∈ c.frames, s.InFlight f ∨
    r.log = (s.replicas m).log ∧ ∃ n, ReadFrom (s.replicas n).log.records f
  /-- Its watermark stays what an fsync has covered. -/
  fsynced : s.fsync ≠ .os → RestartOk s e →
    (s.replicas m).committed = (s.replicas m).log.synced → r.committed = r.log.synced

/-- A step of the catch-up that leaves the log alone. -/
theorem NodeStep.of_catchUp (hlog : r.log = (s.replicas m).log)
    (hplacement : r.placement = (s.replicas m).placement)
    (hcommitted : r.committed = (s.replicas m).committed)
    (hframes : ∀ c ∈ r.catchUp, ∀ f ∈ c.frames,
      s.InFlight f ∨ ∃ n, ReadFrom (s.replicas n).log.records f) : NodeStep s e m r where
  log := hlog ▸ .same
  placement := .inl hplacement
  frames c hc f hf := (hframes c hc f hf).imp_right fun hread => ⟨hlog, hread⟩
  fsynced _ _ hsame := by rw [hcommitted, hlog, hsame]

theorem nodeStep_appendRawFrame (hf : s.delivered e = some (m, f))
    (h : (s.replicas m).appendRawFrame f = some r)
    (hframes : ∀ c ∈ r'.catchUp, ∀ f ∈ c.frames, s.InFlight f) (hlog : r'.log = r.log)
    (hplacement : r'.placement = r.placement) (hcommitted : r'.committed = r.committed) :
    NodeStep s e m r' := by
  have hsteady : ∀ c ∈ r'.catchUp, ∀ f ∈ c.frames, s.InFlight f ∨
      r'.log = (s.replicas m).log ∧ ∃ n, ReadFrom (s.replicas n).log.records f :=
    fun c hc f hf => .inl (hframes c hc f hf)
  rcases appendRawFrame_cases h with ⟨rfl, -⟩ | ⟨hoffset, rfl⟩
  · exact ⟨hlog ▸ .same, .inl hplacement, hsteady, fun _ _ h => by rw [hcommitted, hlog, h]⟩
  · refine ⟨hlog ▸ .frame f hf hoffset, .inl hplacement, hsteady, fun _ _ h => ?_⟩
    rw [hcommitted, hlog]
    exact h

theorem nodeStep_probe (h : s.probe (s.replicas m) ok = some r) : NodeStep s e m r := by
  obtain ⟨topic, topics, peers, peer, todo, leo, probeFrom, best, answered, hcatchUp, hcases⟩ :=
    probe_cases h
  have hbest : ∀ b ∈ best, ∀ f ∈ b.2.frames, s.InFlight f := by
    rintro ⟨source, page⟩ hb f hf
    refine .inr ⟨m, _, hcatchUp, ?_⟩
    rw [mem_def.mp hb]
    exact hf
  have hmem : ∀ {best' : Option (NodeId × CatchUpPage)} {f : ReplicaFrame},
      f ∈ best'.elim [] (fun b => b.2.frames) → ∃ b ∈ best', f ∈ b.2.frames := by
    rintro (_ | b) f hf
    · cases hf
    · exact ⟨b, rfl, hf⟩
  rcases hcases with rfl | rfl <;> refine .of_catchUp rfl rfl rfl ?_
  · rintro _ ⟨⟩ f hf
    obtain ⟨b, hb, hf⟩ := hmem hf
    exact .inl (hbest b hb f hf)
  · rintro _ ⟨⟩ f hf
    obtain ⟨b, hb, hf⟩ := hmem hf
    -- the better page is the old one or the new one
    unfold betterPage at hb
    split at hb
    · split at hb
      · cases hb
        exact .inr ⟨peer, readFrom_of_catchUpRange hf⟩
      · cases hb
        exact .inl (hbest _ rfl f hf)
    · cases hb
      exact .inr ⟨peer, readFrom_of_catchUpRange hf⟩

section

variable (h : s.step e = some s')

include h

/-- **What a step does to the nodes**: it touches at most one of them. -/
theorem step_node : s'.replicas = s.replicas ∨
    ∃ m r, s'.replicas = Function.update s.replicas m r ∧ NodeStep s e m r := by
  -- the frames of a catch-up that stays
  have hkept : ∀ {m : NodeId}, ∀ c ∈ (s.replicas m).catchUp, ∀ f ∈ c.frames, s.InFlight f :=
    fun {m} c hc f hf => .inr ⟨m, c, hc, hf⟩
  cases step_steps h with
  | command | startPublish | send | accept | rejectFrame | finish | receive | acknowledge =>
    exact .inl rfl
  | @observe m i lease p hp =>
    exact .inr ⟨m, _, rfl, .same, .inr (mem_of_getElem? hp),
      fun c hc f hf => .inl (hkept c hc f hf), fun _ _ h => h⟩
  | @append i items p hp =>
    exact .inr ⟨p.leader, _, rfl, .publish _ _ _ rfl hp rfl, .inl rfl,
      fun c hc f hf => .inl (hkept c hc f hf), fun _ _ h => h⟩
  | remove | lose =>
    exact .inr ⟨_, _, rfl, .of_catchUp rfl rfl rfl fun c hc f hf => .inl (hkept c hc f hf)⟩
  | @appendFrame k handler p f r hh hp hf hr =>
    have hdelivered : s.delivered (.appendFrame k) = some (handler.peer, f) := by
      simp only [delivered, hh, hp, hf, bind_some, map_some]
    refine .inr ⟨handler.peer, r, rfl, nodeStep_appendRawFrame hdelivered hr ?_ rfl rfl rfl⟩
    rcases appendRawFrame_cases hr with ⟨rfl, -⟩ | ⟨-, rfl⟩ <;> exact hkept
  | @flush m =>
    refine .inr ⟨m, _, rfl, ?_, .inl rfl, fun c hc f hf => .inl (hkept c hc f hf),
      fun hos _ _ => ?_⟩
    · split
      · exact .same
      · exact .sync
    · rw [if_neg hos]
      rfl
  | @gain m =>
    refine .inr ⟨m, _, rfl, ?_⟩
    split
    · exact .of_catchUp rfl rfl rfl nofun
    · refine .of_catchUp rfl rfl rfl ?_
      rintro _ ⟨⟩ f ⟨⟩
  | @probe m ok r hr => exact .inr ⟨m, r, rfl, nodeStep_probe hr⟩
  | @choose m r hr =>
    refine .inr ⟨m, r, rfl, ?_⟩
    obtain ⟨_, _, _, _, _, _, hcatchUp, rfl | ⟨source, page, rfl, -, rfl⟩⟩ := choose_cases hr
    · exact .of_catchUp rfl rfl rfl nofun
    · refine .of_catchUp rfl rfl rfl ?_
      rintro _ ⟨⟩ f hf
      exact .inl (hkept _ hcatchUp f hf)
  | @applyFrame m r hr =>
    refine .inr ⟨m, r, rfl, ?_⟩
    obtain ⟨_, _, _, _, f, _, _, _, hcatchUp, rfl | ⟨r₁, happend, rfl⟩⟩ := applyFrame_cases hr
    · exact .of_catchUp rfl rfl rfl nofun
    · have hdelivered : s.delivered (.applyFrame m) = some (m, f) := by
        unfold delivered
        dsimp only
        rw [hcatchUp]
      refine nodeStep_appendRawFrame hdelivered happend ?_ rfl rfl rfl
      rintro _ ⟨⟩ g hg
      exact hkept _ hcatchUp g (.tail _ hg)
  | @nextPage m ok r hr =>
    refine .inr ⟨m, r, rfl, ?_⟩
    obtain ⟨_, _, _, source, _, _, _, -, rfl | ⟨-, -, rfl⟩ | ⟨-, -, rfl⟩ | rfl⟩ := nextPage_cases hr
    · exact .of_catchUp rfl rfl rfl nofun
    · exact .of_catchUp rfl rfl rfl nofun
    · refine .of_catchUp rfl rfl rfl ?_
      rintro _ ⟨⟩ f ⟨⟩
    · refine .of_catchUp rfl rfl rfl ?_
      rintro _ ⟨⟩ f hf
      exact .inr ⟨source, readFrom_of_catchUpRange hf⟩
  | @restart m keep =>
    refine .inr ⟨m, _, rfl, .crash keep rfl, .inl rfl, nofun, fun _ hok _ => ?_⟩
    -- only the fsynced records are left
    show ((s.replicas m).log.records.take (max keep (s.replicas m).log.synced)).length = _
    rw [max_eq_right hok, length_take, min_eq_left (s.replicas m).log.synced_le]
    rfl

theorem step_replica (n : NodeId) :
    s'.replicas n = s.replicas n ∨ NodeStep s e n (s'.replicas n) := by
  rcases step_node h with hsame | ⟨m, r, hupdate, hnode⟩
  · exact .inl (congrFun hsame n)
  · rw [hupdate, update_apply]
    split
    · next hn => exact .inr (hn ▸ hnode)
    · exact .inl rfl

/-- **What a step does to the logs.** -/
theorem step_logChange (n : NodeId) : LogChange s e n (s'.replicas n).log := by
  rcases step_replica h n with hsame | hnode
  · exact hsame ▸ .same
  · exact hnode.log

/-- A node keeps its placement, or applies one of the controller's. -/
theorem step_placement (n : NodeId) :
    (s'.replicas n).placement = (s.replicas n).placement ∨
      (s'.replicas n).placement ∈ s.placements := by
  rcases step_replica h n with hsame | hnode
  · exact .inl (congrArg Replica.placement hsame)
  · exact hnode.placement

/-! ## Publishes -/

/-- A publish keeps its leader. It keeps its request or reads it from the placement its leader has
seen, and keeps its frames or reads them from the log of its leader. -/
def GoesOn (s s' : Cluster) (old p : Publishing) : Prop :=
  p.leader = old.leader ∧ (p.request = old.request ∨ p.request = some (s.requestOf old)) ∧
    (p.frames = old.frames ∨ ∀ f ∈ p.frames, ReadFrom (s'.replicas p.leader).log.records f)

/-- A publish goes on, or is new. -/
theorem step_publishing {p : Publishing} (hp : p ∈ s'.publishings) :
    (∃ old ∈ s.publishings, s.GoesOn s' old p) ∨
    (s.replicas p.leader).isLeader p.leader = true ∧ p.request = none ∧ p.frames = [] := by
  -- a step of one publish
  have hset : ∀ {i : Nat} {old r : Publishing}, s.publishings[i]? = some old →
      p ∈ s.publishings.set i r → s.GoesOn s' old r → ∃ old ∈ s.publishings, s.GoesOn s' old p := by
    intro i old r hold hmem hnext
    rcases mem_or_eq_of_mem_set hmem with hkept | rfl
    · exact ⟨p, hkept, rfl, .inl rfl, .inl rfl⟩
    · exact ⟨old, mem_of_getElem? hold, hnext⟩
  cases step_steps h with
  | startPublish hn =>
    rcases mem_snoc.mp hp with hold | rfl
    · exact .inl ⟨p, hold, rfl, .inl rfl, .inl rfl⟩
    · exact .inr ⟨hn, rfl, rfl⟩
  | @append i items q hi =>
    refine .inl (hset hi hp ⟨rfl, .inl rfl, .inr fun f hf => ?_⟩)
    show ReadFrom (update s.replicas q.leader _ q.leader).log.records f
    rw [update_self]
    exact readFrom_of_mem hf
  | send hi => exact .inl (hset hi hp ⟨rfl, .inr rfl, .inl rfl⟩)
  | receive hi | acknowledge hi => exact .inl (hset hi hp ⟨rfl, .inl rfl, .inl rfl⟩)
  | restart =>
    obtain ⟨old, hold, rfl⟩ := mem_map.mp hp
    refine .inl ⟨old, hold, ?_⟩
    split <;> exact ⟨rfl, .inl rfl, .inl rfl⟩
  | _ => exact .inl ⟨p, hp, rfl, .inl rfl, .inl rfl⟩

/-- **Where the frames on their way come from.** -/
theorem step_inFlight (hf : s'.InFlight f) :
    s.InFlight f ∨ ∃ n, ReadFrom (s'.replicas n).log.records f := by
  rcases hf with ⟨p, hp, hpf⟩ | ⟨n, c, hc, hcf⟩
  · rcases step_publishing h hp with ⟨old, hold, -, -, hsame | hread⟩ | ⟨-, -, hnone⟩
    · exact .inl (.inl ⟨old, hold, hsame ▸ hpf⟩)
    · exact .inr ⟨p.leader, hread f hpf⟩
    · rw [hnone] at hpf
      cases hpf
  · rcases step_node h with hsame | ⟨m, r, hupdate, hnode⟩
    · exact .inl (.inr ⟨n, c, hsame ▸ hc, hcf⟩)
    · rw [hupdate, update_apply] at hc
      split at hc
      · rcases hnode.frames c hc f hcf with hold | ⟨hlog, n', hread⟩
        · exact .inl hold
        · refine .inr ⟨n', ?_⟩
          rw [hupdate, update_apply]
          split
          · next hn => rwa [hlog, ← hn]
          · exact hread
      · exact .inl (.inr ⟨n, c, hc, hcf⟩)

end

end Cluster

end BetterMQ
