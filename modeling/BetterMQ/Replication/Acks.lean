import BetterMQ.Replication.Matching

/-!
# What an ack stands for

A follower acks a replicate request when its committed watermark has passed the last record of it.
With an fsync on every flush, and restarts that find only fsynced records, the watermark is what an
fsync has covered, and so

* **`PublishesOk.step`** — in every run each ack, on its way or counted, stands for a node that has
  fsynced every record of the request.
-/

namespace BetterMQ

open List Option

namespace Cluster

variable {s s' : Cluster} {e : Event}

/-! ## Records on nodes -/

/-- The log of node `n` has the record, an offset and an id. -/
def HasRecord (s : Cluster) (n : NodeId) (x : Nat × Uuid) : Prop :=
  (logIds (s.replicas n).log.records)[x.1]? = some x.2

/-- It has it, and an fsync has covered it. -/
def Durable (s : Cluster) (n : NodeId) (x : Nat × Uuid) : Prop :=
  s.HasRecord n x ∧ x.1 < (s.replicas n).log.synced

theorem step_log (h : s.step e = some s') (n : NodeId) :
    (s.replicas n).log.synced ≤ (s'.replicas n).log.synced ∧
      ((s.replicas n).log.records <+: (s'.replicas n).log.records ∨
        ∃ keep, e = .restart n keep ∧
          (s'.replicas n).log.records
            = (s.replicas n).log.records.take (max keep (s.replicas n).log.synced)) := by
  have hchange := step_logChange h n
  generalize (s'.replicas n).log = log at hchange
  cases hchange with
  | same => exact ⟨Nat.le_refl _, .inl (prefix_refl _)⟩
  | sync => exact ⟨(s.replicas n).log.synced_le, .inl (prefix_refl _)⟩
  | crash keep he => exact ⟨Nat.le_refl _, .inr ⟨keep, he, rfl⟩⟩
  | publish | frame => exact ⟨Nat.le_refl _, .inl (prefix_append _ _)⟩

variable {n : NodeId} {x : Nat × Uuid}

theorem HasRecord.step (hx : s.HasRecord n x) (h : s.step e = some s')
    (hstay : ∀ keep, e ≠ .restart n keep) : s'.HasRecord n x := by
  obtain ⟨-, hgrow | ⟨keep, he, -⟩⟩ := step_log h n
  · exact getElem?_of_isPrefix (hgrow.map _) hx
  · exact absurd he (hstay keep)

theorem Durable.step (hx : s.Durable n x) (h : s.step e = some s') : s'.Durable n x := by
  obtain ⟨hsynced, hgrow | ⟨keep, he, hcut⟩⟩ := step_log h n
  · exact ⟨getElem?_of_isPrefix (hgrow.map _) hx.1, Nat.lt_of_lt_of_le hx.2 hsynced⟩
  · refine ⟨?_, Nat.lt_of_lt_of_le hx.2 hsynced⟩
    have hlt : x.1 < max keep (s.replicas n).log.synced := Nat.lt_of_lt_of_le hx.2
      (le_max_right _ _)
    rw [HasRecord, hcut, logIds, map_take, getElem?_take_of_lt hlt]
    exact hx.1

/-! ## Watermarks -/

/-- Every watermark is what an fsync has covered. -/
structure Fsynced (s : Cluster) : Prop where
  fsync : s.fsync ≠ .os
  committed : ∀ n, (s.replicas n).committed = (s.replicas n).log.synced

variable {f : ReplicaFrame} {p : Publishing} {frames : List ReplicaFrame} {nodes : List NodeId}
  {fsync : FsyncMode} {r : Replica} {shard i : Nat}

theorem appendRawFrame_same {r' : Replica} (h : r.appendRawFrame f = some r') :
    r'.catchUp = r.catchUp ∧ r'.mustHold = r.mustHold := by
  rcases appendRawFrame_cases h with ⟨rfl, -⟩ | ⟨-, rfl⟩
  · exact ⟨rfl, rfl⟩
  · exact ⟨rfl, rfl⟩

theorem Fsynced.step (h : Fsynced s) (hok : RestartOk s e) (hstep : s.step e = some s') :
    Fsynced s' := by
  refine ⟨(step_nodes hstep).2 ▸ h.fsync, fun n => ?_⟩
  rcases step_replica hstep n with hsame | hnode
  · rw [hsame]
    exact h.committed n
  · exact hnode.fsynced h.fsync hok (h.committed n)

theorem fresh_fsynced {p : Placement} (hfsync : fsync ≠ .os) :
    Fsynced (fresh nodes shard fsync p) := ⟨hfsync, fun _ => rfl⟩

theorem ReadFrom.getElem? {records : List Item} (h : ReadFrom records f) :
    (logIds records)[f.offset]? = some f.id := by
  obtain ⟨g, hg, hoffset, hid, -⟩ := h
  obtain ⟨item, hitem, hframe⟩ := map_eq_some_iff.mp hg
  rw [hoffset, hid, logIds, getElem?_map, hitem, ← hframe]
  rfl

/-- The offsets of a list of frames follow one another. -/
def Consecutive (frames : List ReplicaFrame) : Prop :=
  ∃ first, frames.map (fun f => f.offset) = List.range' first frames.length

theorem consecutive_framesFrom (records : List Item) (offset : Nat) :
    Consecutive (framesFrom records offset) := by
  -- every offset of the range has a record
  have hoffsets : ∀ first count, first + count ≤ records.length →
      ((List.range' first count).filterMap (frameAt records)).map (fun f => f.offset)
        = List.range' first count := by
    intro first count hle
    induction count generalizing first with
    | zero => rfl
    | succ count ih =>
      have hrecord : records[first]? = some records[first] :=
        getElem?_eq_getElem (by omega)
      rw [range'_succ, filterMap_cons, frameAt, hrecord]
      exact congrArg (first :: ·) (ih (first + 1) (by omega))
  by_cases hle : offset ≤ records.length
  · have hmap := hoffsets offset (records.length - offset) (by omega)
    have hcount := congrArg List.length hmap
    rw [length_map, length_range'] at hcount
    refine ⟨offset, hmap.trans ?_⟩
    rw [framesFrom, hcount]
  · refine ⟨0, ?_⟩
    rw [framesFrom, Nat.sub_eq_zero_of_le (Nat.le_of_not_le hle)]
    rfl

theorem Consecutive.endOffset (h : Consecutive frames) (hne : frames ≠ []) :
    ∃ f ∈ frames.head?, Cluster.endOffset frames = f.offset + frames.length := by
  obtain ⟨first, hoffsets⟩ := h
  cases frames with
  | nil => exact absurd rfl hne
  | cons f rest =>
    refine ⟨f, rfl, ?_⟩
    have hhead : f.offset = first := (List.cons.inj hoffsets).1
    have hlast := congrArg List.getLast? hoffsets
    rw [getLast?_map, length_cons, range'_1_concat, getLast?_concat] at hlast
    obtain ⟨last, hmem, hoffset⟩ := map_eq_some_iff.mp hlast
    rw [Cluster.endOffset, hmem, hhead]
    show last.offset + 1 = first + (rest.length + 1)
    omega

theorem Consecutive.lt_endOffset (h : Consecutive frames) (hf : f ∈ frames) :
    f.offset < Cluster.endOffset frames := by
  obtain ⟨g, hg, hend⟩ := h.endOffset (ne_nil_of_mem hf)
  obtain ⟨first, hoffsets⟩ := h
  have hmem : f.offset ∈ List.range' first frames.length :=
    hoffsets ▸ mem_map_of_mem hf
  have hfirst : g.offset ∈ List.range' first frames.length :=
    hoffsets ▸ mem_map_of_mem (mem_of_mem_head? hg)
  have hlt := (mem_range'_1.mp hmem).2
  have hle := (mem_range'_1.mp hfirst).1
  omega

theorem setReplica_self : (s.setReplica n r).replicas n = r :=
  Function.update_self _ _ _

theorem hasRecord_appendRawFrame (h : (s.replicas n).appendRawFrame f = some r) :
    (logIds r.log.records)[f.offset]? = some f.id := by
  rcases appendRawFrame_cases h with ⟨rfl, -, hid⟩ | ⟨hoffset, rfl⟩
  · exact hid
  · have hlength : f.offset = (logIds (s.replicas n).log.records).length := by
      rw [logIds, length_map]
      exact hoffset
    rw [DurableLog.records_append, logIds_append, hlength, getElem?_append_right (Nat.le_refl _),
      Nat.sub_self]
    rfl

/-! ## Publishes -/

/-- An ack of the peer stands for fsynced records. -/
structure AckOk (s : Cluster) (peer : NodeId) (p : Publishing) : Prop where
  target : ∃ r ∈ p.request, peer ∈ r.targets
  durable : ∀ f ∈ p.frames, s.Durable peer (f.offset, f.id)

/-- A publish: its records are in its leader's log while it runs, and the peers whose acks it
counted have fsynced them. -/
structure PublishingOk (s : Cluster) (p : Publishing) : Prop where
  consecutive : Consecutive p.frames
  request : ∀ r ∈ p.request, p.frames ≠ []
  own : p.alive = true → ∀ f ∈ p.frames, s.HasRecord p.leader (f.offset, f.id)
  distinct : p.acked.Nodup
  acked : ∀ peer ∈ p.acked, AckOk s peer p

/-- A handler has appended the first `done` records of its request. -/
structure HandlerOk (s : Cluster) (h : Handler) (p : Publishing) : Prop where
  target : ∃ r ∈ p.request, h.peer ∈ r.targets
  appended : ∀ f ∈ p.frames.take h.done, s.HasRecord h.peer (f.offset, f.id)

structure PublishesOk (s : Cluster) : Prop where
  publishings : ∀ (i : Nat) p, s.publishings[i]? = some p → PublishingOk s p
  handlers : ∀ h ∈ s.handlers, ∃ p, s.publishings[h.publishing]? = some p ∧ HandlerOk s h p
  acks : ∀ a ∈ s.acks, ∃ p, s.publishings[a.1]? = some p ∧ AckOk s a.2 p

/-- The publish asks for the same as before. -/
def SameRequest (p p' : Publishing) : Prop := p'.request = p.request ∧ p'.frames = p.frames

theorem AckOk.mono {peer : NodeId} {p' : Publishing} (h : AckOk s peer p) (hsame : SameRequest p p')
    (hdurable : ∀ m x, s.Durable m x → s'.Durable m x) : AckOk s' peer p' :=
  ⟨hsame.1 ▸ h.target, hsame.2 ▸ fun f hf => hdurable _ _ (h.durable f hf)⟩

theorem HandlerOk.mono {x : Handler} {p' : Publishing} (h : HandlerOk s x p)
    (hsame : SameRequest p p') (hrecord : ∀ y, s.HasRecord x.peer y → s'.HasRecord x.peer y) :
    HandlerOk s' x p' :=
  ⟨hsame.1 ▸ h.target, hsame.2 ▸ fun f hf => hrecord _ (h.appended f hf)⟩

theorem requested_of_target {peer : NodeId} (h : ∃ r ∈ p.request, peer ∈ r.targets) :
    p.request ≠ none := by
  obtain ⟨r, hr, -⟩ := h
  rw [hr]
  exact some_ne_none r

section

variable (h : PublishingOk s p)

include h

theorem PublishingOk.mono {t : Cluster}
    (hown : p.alive = true → ∀ x, s.HasRecord p.leader x → t.HasRecord p.leader x)
    (hdurable : ∀ m x, s.Durable m x → t.Durable m x) : PublishingOk t p where
  __ := h
  own halive f hf := hown halive _ (h.own halive f hf)
  acked peer hpeer := (h.acked peer hpeer).mono ⟨rfl, rfl⟩ hdurable

theorem PublishingOk.dead (hdurable : ∀ m x, s.Durable m x → s'.Durable m x) :
    PublishingOk s' { p with alive := false } where
  __ := h
  own halive := absurd halive Bool.false_ne_true
  acked peer hpeer := (h.acked peer hpeer).mono ⟨rfl, rfl⟩ hdurable

theorem PublishingOk.acked_eq_nil (hrequest : p.request = none) : p.acked = [] :=
  List.eq_nil_iff_forall_not_mem.mpr fun peer hpeer =>
    requested_of_target (h.acked peer hpeer).target hrequest

end

/-- A step after which every publish with a request has the same one. -/
theorem PublishesOk.next (h : PublishesOk s) (hdurable : ∀ m x, s.Durable m x → s'.Durable m x)
    (hsame : ∀ (j : Nat) p, s.publishings[j]? = some p → p.request ≠ none →
      ∃ p', s'.publishings[j]? = some p' ∧ SameRequest p p')
    (hpublishings : ∀ (j : Nat) p, s'.publishings[j]? = some p → PublishingOk s' p)
    (hhandlers : ∀ x ∈ s'.handlers,
      (x ∈ s.handlers ∧ ∀ y, s.HasRecord x.peer y → s'.HasRecord x.peer y) ∨
        ∃ p, s'.publishings[x.publishing]? = some p ∧ HandlerOk s' x p)
    (hacks : ∀ a ∈ s'.acks, a ∈ s.acks ∨ ∃ p, s'.publishings[a.1]? = some p ∧ AckOk s' a.2 p) :
    PublishesOk s' := by
  refine ⟨hpublishings, fun x hx => ?_, fun a ha => ?_⟩
  · rcases hhandlers x hx with ⟨hold, hrecord⟩ | hnew
    · obtain ⟨p, hp, hok⟩ := h.handlers x hold
      obtain ⟨p', hp', hpp'⟩ := hsame _ p hp (requested_of_target hok.target)
      exact ⟨p', hp', hok.mono hpp' hrecord⟩
    · exact hnew
  · rcases hacks a ha with hold | hnew
    · obtain ⟨p, hp, hok⟩ := h.acks a hold
      obtain ⟨p', hp', hpp'⟩ := hsame _ p hp (requested_of_target hok.target)
      exact ⟨p', hp', hok.mono hpp' hdurable⟩
    · exact hnew

section

variable (h : PublishesOk s) (hstep : s.step e = some s') (hstay : ∀ n keep, e ≠ .restart n keep)

include h hstep hstay

theorem PublishesOk.of_messages (hpublishings : s'.publishings = s.publishings)
    (hhandlers : ∀ x ∈ s'.handlers, x ∈ s.handlers ∨
      ∃ p, s.publishings[x.publishing]? = some p ∧ HandlerOk s' x p)
    (hacks : ∀ a ∈ s'.acks, a ∈ s.acks ∨ ∃ p, s.publishings[a.1]? = some p ∧ AckOk s' a.2 p) :
    PublishesOk s' := by
  refine h.next (fun m x hx => hx.step hstep) (fun j p hp _ => ?_) (fun j p hp => ?_)
    (fun x hx => ?_) fun a ha => ?_
  · exact ⟨p, hpublishings ▸ hp, rfl, rfl⟩
  · exact (h.publishings j p (hpublishings ▸ hp)).mono (fun _ x hx => hx.step hstep (hstay _))
      fun m x hx => hx.step hstep
  · exact (hhandlers x hx).imp (⟨·, fun y hy => hy.step hstep (hstay _)⟩) (hpublishings ▸ ·)
  · exact (hacks a ha).imp_right (hpublishings ▸ ·)

/-- A step of one publish. Before it has a request, no handler and no ack speaks of it. -/
theorem PublishesOk.of_set {r : Publishing} (hp : s.publishings[i]? = some p)
    (hset : s'.publishings = s.publishings.set i r) (hhandlers : s'.handlers = s.handlers)
    (hacks : s'.acks = s.acks) (hok : PublishingOk s' r)
    (hkeep : p.request = none ∨ SameRequest p r) : PublishesOk s' := by
  refine h.next (fun m x hx => hx.step hstep) (fun j p₁ hp₁ hrequest => ?_) (fun j p₁ hp₁ => ?_)
    (fun x hx => .inl ⟨hhandlers ▸ hx, fun y hy => hy.step hstep (hstay _)⟩)
    fun a ha => .inl (hacks ▸ ha)
  · by_cases hj : i = j
    · subst hj
      cases hp.symm.trans hp₁
      refine ⟨r, ?_, hkeep.resolve_left hrequest⟩
      rw [hset, getElem?_set_self (List.getElem?_eq_some_iff.mp hp).1]
    · exact ⟨p₁, by rw [hset, getElem?_set_ne hj, hp₁], rfl, rfl⟩
  · rw [hset] at hp₁
    rcases getElem?_set_cases hp hp₁ with ⟨rfl, hnew⟩ | ⟨-, hold⟩
    · cases hnew
      exact hok
    · exact (h.publishings j p₁ hold).mono (fun _ x hx => hx.step hstep (hstay _))
        fun m x hx => hx.step hstep

end

theorem publishingOk_new : PublishingOk s ⟨n, true, [], none, []⟩ where
  consecutive := ⟨0, rfl⟩
  request r hr := absurd hr.symm (some_ne_none r)
  own _ _ hf := absurd hf not_mem_nil
  distinct := nodup_nil
  acked := nofun

theorem PublishesOk.restart (h : PublishesOk s) {keep : Nat} : PublishesOk (s.restart n keep) := by
  have hstep : s.step (.restart n keep) = some (s.restart n keep) := rfl
  have hdurable : ∀ m x, s.Durable m x → (s.restart n keep).Durable m x :=
    fun m x hx => hx.step hstep
  have hother : ∀ {m : NodeId}, m ≠ n → ∀ x, s.HasRecord m x → (s.restart n keep).HasRecord m x :=
    fun hm x hx => hx.step hstep fun keep' heq => hm (by cases heq; rfl)
  have hmap : ∀ (j : Nat), (s.restart n keep).publishings[j]?
      = s.publishings[j]?.map fun p => if p.leader = n then { p with alive := false } else p :=
    fun j => getElem?_map
  refine h.next hdurable (fun j p hp _ => ?_) (fun j p₁ hp₁ => ?_) (fun x hx => ?_)
    fun a ha => .inl ha
  · refine ⟨_, (hmap _).trans (by rw [hp]; rfl), ?_⟩
    dsimp only
    split <;> exact ⟨rfl, rfl⟩
  · rw [hmap] at hp₁
    obtain ⟨p, hp, rfl⟩ := map_eq_some_iff.mp hp₁
    have hold := h.publishings j p hp
    split
    · exact hold.dead hdurable
    · next hleader => exact hold.mono (fun _ => hother hleader) hdurable
  · obtain ⟨hmem, hpeer⟩ := mem_filter.mp hx
    exact .inl ⟨hmem, hother (of_decide_eq_true hpeer)⟩

/-- The records a publish appends are in the log of its leader. -/
theorem PublishingOk.append (h : PublishingOk s p) (hframes : p.frames = []) {items : List Item} :
    p.request = none ∧ PublishingOk (s.publishItems i p items) { p with
      frames := framesFrom ((s.replicas p.leader).log.append items).records
        (s.replicas p.leader).log.records.length } := by
  have hrequest : p.request = none := by
    cases hr : p.request with
    | none => rfl
    | some r => exact absurd hframes (h.request r hr)
  have hacked : p.acked = [] := h.acked_eq_nil hrequest
  refine ⟨hrequest, consecutive_framesFrom _ _, ?_, fun _ f hf => ?_, h.distinct, ?_⟩
  · intro r hr
    rw [hrequest] at hr
    cases hr
  · show (logIds ((s.setReplica p.leader _).replicas p.leader).log.records)[f.offset]? = some f.id
    rw [setReplica_self]
    exact (readFrom_of_mem hf).getElem?
  · intro peer hpeer
    rw [hacked] at hpeer
    cases hpeer

/-- **Acks stand for fsynced records**, along every step. -/
theorem PublishesOk.step (h : PublishesOk s) (hfsynced : Fsynced s) (hstep : s.step e = some s') :
    PublishesOk s' := by
  have hdurable : ∀ m x, s.Durable m x → s'.Durable m x := fun m x hx => hx.step hstep
  cases step_steps hstep with
  | command | observe | flush | remove | gain | lose | probe | choose | applyFrame | nextPage =>
    exact h.of_messages hstep nofun rfl (fun _ hx => .inl hx) fun _ ha => .inl ha
  | rejectFrame =>
    refine h.of_messages hstep nofun rfl (fun _ hx => ?_) fun _ ha => .inl ha
    exact .inl (mem_of_mem_eraseIdx hx)
  | @startPublish n hn =>
    refine h.next hdurable (fun j p hp _ => ?_) (fun j p hp => ?_)
      (fun x hx => .inl ⟨hx, fun y hy => hy.step hstep nofun⟩) fun a ha => .inl ha
    · exact ⟨p, getElem?_of_isPrefix (prefix_append _ _) hp, rfl, rfl⟩
    · rcases mem_snoc.mp (mem_of_getElem? hp) with hold | rfl
      · obtain ⟨i, hi⟩ := mem_iff_getElem?.mp hold
        exact (h.publishings i p hi).mono (fun _ x hx => hx.step hstep nofun) hdurable
      · exact publishingOk_new
  | @append i items p hp halive hframes hitems =>
    obtain ⟨hrequest, hok⟩ := (h.publishings i p hp).append hframes
    exact h.of_set hstep nofun hp rfl rfl rfl hok (.inl hrequest)
  | @send i p hp halive hframes hrequest =>
    have hold := (h.publishings i p hp).mono (fun _ x hx => hx.step hstep nofun) hdurable
    refine h.of_set hstep nofun hp rfl rfl rfl ?_ (.inl hrequest)
    refine ⟨hold.consecutive, fun _ _ => hframes, hold.own, hold.distinct, ?_⟩
    intro peer hpeer
    rw [hold.acked_eq_nil hrequest] at hpeer
    cases hpeer
  | @accept i peer p request hp hrequest hpeer =>
    refine h.of_messages hstep nofun rfl (fun x hx => ?_) fun _ ha => .inl ha
    rcases mem_snoc.mp hx with hold | rfl
    · exact .inl hold
    · exact .inr ⟨p, hp, ⟨request, hrequest, hpeer⟩, fun f hf => absurd hf not_mem_nil⟩
  | @appendFrame k handler p f r hh hp hf hr =>
    refine h.of_messages hstep nofun rfl (fun x hx => ?_) fun _ ha => .inl ha
    rcases mem_or_eq_of_mem_set hx with hold | rfl
    · exact .inl hold
    · obtain ⟨p₁, hp₁, hok⟩ := h.handlers handler (mem_of_getElem? hh)
      cases hp.symm.trans hp₁
      refine .inr ⟨p, hp, hok.target, fun g hg => ?_⟩
      rw [take_add_one, hf] at hg
      rcases mem_append.mp hg with hdone | hlast
      · exact (hok.appended g hdone).step hstep nofun
      · rw [mem_singleton.mp hlast]
        show (logIds ((s.setReplica handler.peer r).replicas handler.peer).log.records)[f.offset]?
          = some f.id
        rw [setReplica_self]
        exact hasRecord_appendRawFrame hr
  | @finish k handler p hh hp hdone hcommitted =>
    refine h.of_messages hstep nofun rfl (fun x hx => .inl (mem_of_mem_eraseIdx hx))
      fun a ha => ?_
    rcases mem_append.mp ha with hold | hnew
    · exact .inl hold
    · obtain ⟨p₁, hp₁, hok⟩ := h.handlers handler (mem_of_getElem? hh)
      cases hp.symm.trans hp₁
      rw [mem_singleton.mp hnew]
      refine .inr ⟨p, hp, hok.target, fun f hf => hdurable _ _ ⟨?_, ?_⟩⟩
      · refine hok.appended f ?_
        rw [hdone, take_length]
        exact hf
      · -- the watermark the handler waited for is what an fsync has covered
        rw [← hfsynced.committed handler.peer]
        exact Nat.lt_of_lt_of_le ((h.publishings _ p hp).consecutive.lt_endOffset hf) hcommitted
  | @receive i peer p hp hack halive hnew =>
    have hold := (h.publishings i p hp).mono (fun _ x hx => hx.step hstep nofun) hdurable
    refine h.of_set hstep nofun hp rfl rfl rfl ?_ (.inr ⟨rfl, rfl⟩)
    refine ⟨hold.consecutive, hold.request, hold.own, nodup_cons.mpr ⟨hnew, hold.distinct⟩, ?_⟩
    intro peer' hpeer'
    rcases mem_cons.mp hpeer' with rfl | hacked
    · obtain ⟨p₁, hp₁, hok⟩ := h.acks (i, peer') hack
      cases hp.symm.trans hp₁
      exact hok.mono ⟨rfl, rfl⟩ hdurable
    · exact (hold.acked peer' hacked).mono ⟨rfl, rfl⟩ fun _ _ hx => hx
  | @acknowledge i p request hp =>
    refine h.of_set hstep nofun hp rfl rfl rfl ?_ (.inr ⟨rfl, rfl⟩)
    exact (h.publishings i p hp).dead hdurable
  | restart => exact h.restart

theorem fresh_publishesOk {p : Placement} :
    PublishesOk (fresh nodes shard fsync p) where
  publishings _ _ hp := absurd (mem_of_getElem? hp) not_mem_nil
  handlers := nofun
  acks := nofun

end Cluster

end BetterMQ
