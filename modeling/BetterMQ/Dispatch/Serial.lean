import BetterMQ.Dispatch.Cursor

/-!
# Commits of a lane one after another

A commit reads the cursor of its lane at its start and stores the one it has computed at its end,
whatever is stored by then. Where calls on a lane do not overlap, nothing is lost.

* **`CommitSteady.step`** — what a commit that meets no other one of its lane has established;
* **`Steady.step`** — the running calls and the index between any two steps;
* **`completion_permanent`** — cursors never fall and what a commit completed stays complete, if no
  two commits of a lane overlap and no query overlaps a commit;
* **`crossing_commits_lose_completion`** — two commits that overlap.
-/

namespace BetterMQ

open DispatchIndex Function List

namespace DispatchCall

def lane (env : DispatchEnv) : DispatchCall → LaneId
  | .commit args _ => env.lane args
  | .query lane _ _ => lane

def isCommit : DispatchCall → Bool
  | .commit _ _ => true
  | .query _ _ _ => false

end DispatchCall

/-- The commit has marked its record. -/
def CommitPhase.marked : CommitPhase → Bool
  | .readCursor | .mark _ | .failed => false
  | _ => true

/-- What the commit has read agrees with the stored cursor, and it does not go back behind it. -/
def CommitPhase.Follows (stored : Nat) : CommitPhase → Prop
  | .mark cursor | .readHwm cursor => cursor = stored
  | .page cursor _ next => cursor = stored ∧ stored ≤ next
  | .check cursor hwm next rest _ =>
    cursor = stored ∧ stored ≤ next ∧ stored ≤ hwm ∧ ∀ y ∈ rest, stored ≤ y.1
  | .checkEntry cursor hwm x rest _ =>
    cursor = stored ∧ stored ≤ hwm ∧ stored ≤ x.1 ∧ ∀ y ∈ rest, stored ≤ y.1
  | .set next => stored ≤ next
  | .write next deleted => stored ≤ next ∧ ∀ o ∈ deleted, o < next
  | .readCursor | .returned | .failed => True

theorem follows_finish {stored next : Nat} (h : stored ≤ next) :
    (CommitPhase.finish stored next).Follows stored := by
  unfold CommitPhase.finish
  split
  · trivial
  · exact h

namespace DispatchEnv

/-- What a commit that meets no other commit of its lane has established. -/
structure CommitSteady (env : DispatchEnv) (ix : DispatchIndex) (args : CommitArgs)
    (phase : CommitPhase) : Prop where
  follows : phase.Follows (ix.cursors (env.lane args))
  complete : phase.marked = true → ix.isDispatchComplete (env.lane args) args.offset = true

variable {env : DispatchEnv} {log : ShardLog} {ix ix' : DispatchIndex} {args : CommitArgs}
  {phase phase' : CommitPhase} {e : IndexEffect}

section

variable (h : env.CommitSteady ix args phase)

include h

theorem CommitSteady.frame (hkeeps : ix.Keeps ix')
    (hcursor : ix'.cursors (env.lane args) = ix.cursors (env.lane args)) :
    env.CommitSteady ix' args phase :=
  ⟨hcursor ▸ h.follows, fun hmarked => hkeeps _ _ (h.complete hmarked)⟩

section

variable (hstep : commitStep env log ix args phase = some (e, phase'))

include hstep

theorem CommitSteady.keeps :
    ix.Keeps (e.onIndex (env.lane args) args.offset ix) ∧ ∀ lane,
      ix.cursors lane ≤ (e.onIndex (env.lane args) args.offset ix).cursors lane := by
  cases e with
  | none => exact ⟨.refl ix, fun _ => le_rfl⟩
  | mark => exact ⟨keeps_mark _ _ _, fun _ => le_rfl⟩
  | write next deleted =>
    have hwrite : ix.cursors (env.lane args) ≤ next ∧ ∀ o ∈ deleted, o < next := by
      obtain ⟨-, rfl | ⟨rfl, rfl⟩⟩ := commitStep_write hstep
      · exact h.follows
      · exact ⟨h.follows, fun _ ho => lt_of_mem_covered ho⟩
    refine ⟨keeps_set hwrite.1 hwrite.2, fun lane => ?_⟩
    show ix.cursors lane ≤ update ix.cursors (env.lane args) next lane
    by_cases hlane : lane = env.lane args
    · rw [hlane, update_self]
      exact hwrite.1
    · rw [update_of_ne hlane]

theorem CommitSteady.complete_step (hmarked : phase'.marked = true) :
    (e.onIndex (env.lane args) args.offset ix).isDispatchComplete (env.lane args) args.offset
      = true := by
  cases phase with
  | readCursor =>
    cases hstep
    split at hmarked
    · next hbelow => exact isDispatchComplete_iff.mpr (.inl hbelow)
    · cases hmarked
  | mark cursor =>
    cases hstep
    exact complete_mark ..
  | failed => cases hstep
  | _ => exact (h.keeps hstep).1 _ _ (h.complete rfl)

/-- **A step of a commit** that meets no other. -/
theorem CommitSteady.step :
    env.CommitSteady (e.onIndex (env.lane args) args.offset ix) args phase' := by
  refine ⟨?_, h.complete_step hstep⟩
  obtain ⟨h, -⟩ := h
  cases phase with
  | readCursor =>
    cases hstep
    split
    · trivial
    · exact rfl
  | mark cursor =>
    cases hstep
    exact h
  | readHwm cursor =>
    cases hstep
    exact ⟨h, h.ge⟩
  | page cursor hwm next =>
    obtain ⟨rfl, hnext⟩ := h
    rw [commitStep] at hstep
    dsimp only at hstep
    split at hstep
    · next hlt =>
      split at hstep
      · cases hstep
        exact follows_finish (hnext.trans hlt.le)
      · cases hstep
        refine ⟨rfl, hnext, hnext.trans hlt.le, fun y hy => ?_⟩
        rw [ShardLog.listTopicMessagesFrom_eq] at hy
        exact hnext.trans (ShardLog.mem_topicFrom.mp (mem_of_mem_take hy)).1.2.1
    · cases hstep
      exact follows_finish hnext
  | check cursor hwm next rest count =>
    obtain ⟨rfl, hnext, hhwm, hrest⟩ := h
    cases rest with
    | nil =>
      cases hstep
      split
      · exact follows_finish hhwm
      · exact ⟨rfl, hnext⟩
    | cons x rest =>
      obtain ⟨hx, hrest⟩ := forall_mem_cons.mp hrest
      rw [commitStep] at hstep
      split at hstep
      · cases hstep
        exact ⟨rfl, Nat.le_succ_of_le hx, hhwm, hrest⟩
      · split at hstep
        · cases hstep
          exact ⟨rfl, Nat.le_succ_of_le hx, hhwm, hrest⟩
        · cases hstep
          exact ⟨rfl, hhwm, hx, hrest⟩
  | checkEntry cursor hwm x rest count =>
    obtain ⟨rfl, hhwm, hx, hrest⟩ := h
    rw [commitStep] at hstep
    split at hstep
    · cases hstep
      exact ⟨rfl, Nat.le_succ_of_le hx, hhwm, hrest⟩
    · cases hstep
      exact follows_finish hx
  | set next =>
    rw [commitStep] at hstep
    split at hstep
    · cases hstep
      trivial
    · cases hstep
      exact ⟨h, fun _ ho => lt_of_mem_covered ho⟩
  | write next deleted =>
    cases hstep
    trivial
  | returned => cases hstep
  | failed => cases hstep

end

end

end DispatchEnv

namespace DispatchShard

variable {env : DispatchEnv} {s s' : DispatchShard} {calls : List DispatchCall} {i : Nat}

/-- A running commit is the only running call on its lane. -/
def Alone (env : DispatchEnv) (calls : List DispatchCall) : Prop :=
  AtMostOne (fun c c' => c.live = true ∧ c'.live = true ∧ c.isCommit = true ∧
    c.lane env = c'.lane env) calls

/-- A commit starts when no call on its lane is running, a query when no commit is. -/
def Serial (env : DispatchEnv) (s : DispatchShard) : DispatchEvent → Prop
  | .startCommit args =>
    ∀ c ∈ s.calls, c.live = true → c.lane env ≠ env.lane args
  | .startQuery lane _ =>
    ∀ c ∈ s.calls, c.live = true → c.isCommit = true → c.lane env ≠ lane
  | _ => True

/-- What holds between any two steps. -/
structure Steady (env : DispatchEnv) (s : DispatchShard) : Prop where
  alone : Alone env s.calls
  commits : ∀ args phase, .commit args phase ∈ s.calls → env.CommitSteady s.index args phase
  queries : ∀ lane offset, .query lane offset .readEntry ∈ s.calls → s.index.cursors lane ≤ offset

theorem start_steady (log : ShardLog) : Steady env (start log) where
  alone := atMostOne_nil
  commits := fun _ _ h => by cases h
  queries := fun _ _ h => by cases h

theorem Alone.goesOn (h : Alone env calls) {c c' : DispatchCall} (hc : calls[i]? = some c)
    (hlane : c'.lane env = c.lane env) (hcommit : c'.isCommit = c.isCommit)
    (hlive : c'.live = true → c.live = true) : Alone env (calls.set i c') := by
  refine AtMostOne.set h hc (fun d hd => ?_) fun d hd => ?_
  · exact ⟨hlive hd.1, hd.2.1, hcommit ▸ hd.2.2.1, hlane ▸ hd.2.2.2⟩
  · exact ⟨hd.1, hlive hd.2.1, hd.2.2.1, hlane ▸ hd.2.2.2⟩

variable {c : DispatchCall} {args : CommitArgs}

theorem Alone.start (h : Alone env calls)
    (hc : ∀ d ∈ calls, d.live = true → d.isCommit = true ∨ c.isCommit = true →
      d.lane env ≠ c.lane env) :
    Alone env (calls ++ [c]) := by
  refine AtMostOne.snoc h (fun d hd hR => ?_) fun d hd hR => ?_
  · exact hc d hd hR.2.1 (.inr hR.2.2.1) hR.2.2.2.symm
  · exact hc d hd hR.1 (.inl hR.2.2.1) hR.2.2.2

theorem live_fail (c : DispatchCall) : c.fail.live = false := by
  unfold DispatchCall.fail
  split
  · cases c <;> rfl
  · next hlive => exact Bool.eq_false_iff.mpr hlive

theorem Steady.outside (h : Steady env s) {log : ShardLog} (halone : Alone env calls)
    (hcommits : ∀ args phase, .commit args phase ∈ calls →
      .commit args phase ∈ s.calls ∨ phase = .readCursor ∨ phase = .failed)
    (hqueries : ∀ lane offset, .query lane offset .readEntry ∈ calls →
      .query lane offset .readEntry ∈ s.calls) :
    Steady env { s with log := log, calls := calls } where
  alone := halone
  commits := by
    intro args phase hc
    rcases hcommits args phase hc with hold | rfl | rfl
    · exact h.commits args phase hold
    · exact ⟨trivial, nofun⟩
    · exact ⟨trivial, nofun⟩
  queries := fun lane offset hc => h.queries lane offset (hqueries lane offset hc)

theorem live_of_commitStep {phase : CommitPhase} {r : IndexEffect × CommitPhase}
    (h : commitStep env s.log s.index args phase = some r) :
    (DispatchCall.commit args phase).live = true := by
  cases phase with
  | returned => cases h
  | failed => cases h
  | _ => rfl

theorem cursors_onIndex_of_ne (e : IndexEffect) {lane lane' : LaneId} (hne : lane' ≠ lane)
    (offset : Nat) (ix : DispatchIndex) :
    (e.onIndex lane offset ix).cursors lane' = ix.cursors lane' := by
  cases e with
  | none => rfl
  | mark => rfl
  | write next deleted => exact update_of_ne hne _ _

theorem Steady.commitStep (h : Steady env s) {phase phase' : CommitPhase} {e : IndexEffect}
    (hcall : s.calls[i]? = some (.commit args phase))
    (hstep : commitStep env s.log s.index args phase = some (e, phase')) :
    Steady env { s with
      index := e.onIndex (env.lane args) args.offset s.index
      marked := e.onMarked (env.lane args) args.offset s.marked
      calls := s.calls.set i (.commit args phase') } := by
  have hsteady := h.commits args phase (mem_of_getElem? hcall)
  have hkeeps := (hsteady.keeps hstep).1
  have hlive := live_of_commitStep hstep
  -- a running call on the lane is the commit itself
  have hother : ∀ j d, s.calls[j]? = some d → d.live = true → i ≠ j →
      d.lane env ≠ env.lane args :=
    fun j d hd hlive' hne hlane => hne (h.alone i j _ d hcall hd ⟨hlive, hlive', rfl, hlane.symm⟩)
  refine ⟨h.alone.goesOn hcall rfl rfl fun _ => hlive, fun args' phase'' hc => ?_,
    fun lane offset hc => ?_⟩
  · obtain ⟨j, hj⟩ := mem_iff_getElem?.mp hc
    rcases getElem?_set_cases hcall hj with ⟨rfl, hnew⟩ | ⟨hij, hj⟩
    · cases hnew
      exact hsteady.step hstep
    · have hold := h.commits args' phase'' (mem_of_getElem? hj)
      by_cases hlive' : (DispatchCall.commit args' phase'').live = true
      · exact hold.frame hkeeps (cursors_onIndex_of_ne e (hother j _ hj hlive' hij) _ _)
      · -- a call that has ended asks for nothing but its completion
        refine ⟨?_, fun hmarked => hkeeps _ _ (hold.complete hmarked)⟩
        cases phase'' with
        | returned | failed => trivial
        | _ => exact absurd rfl hlive'
  · rcases mem_or_eq_of_mem_set hc with hold | hnew
    · obtain ⟨j, hj⟩ := mem_iff_getElem?.mp hold
      have hij : i ≠ j := by
        rintro rfl
        rw [hcall] at hj
        cases hj
      have hne := hother j _ hj rfl hij
      exact (cursors_onIndex_of_ne e hne _ _).symm ▸ h.queries lane offset hold
    · cases hnew

variable {lane : LaneId} {offset : Nat} {phase : QueryPhase}

theorem Steady.queryStep (h : Steady env s) {phase' : QueryPhase}
    (hcall : s.calls[i]? = some (.query lane offset phase))
    (hstep : queryStep s.index lane offset phase = some phase') :
    Steady env { s with calls := s.calls.set i (.query lane offset phase') } := by
  have hlive : (DispatchCall.query lane offset phase).live = true := by
    cases phase with
    | readCursor => rfl
    | readEntry => rfl
    | answered b => cases hstep
    | failed => cases hstep
  refine ⟨h.alone.goesOn hcall rfl rfl fun _ => hlive, fun args phase'' hc => ?_,
    fun lane' offset' hc => ?_⟩
  · rcases mem_or_eq_of_mem_set hc with hold | hnew
    · exact h.commits args phase'' hold
    · cases hnew
  · rcases mem_or_eq_of_mem_set hc with hold | hnew
    · exact h.queries lane' offset' hold
    · cases hnew
      cases phase with
      | readCursor =>
        rw [BetterMQ.queryStep] at hstep
        split at hstep
        · cases hstep
        · next hbelow => exact Nat.le_of_not_lt hbelow
      | readEntry => cases hstep
      | answered b => cases hstep
      | failed => cases hstep

theorem fail_eq_readEntry (h : c.fail = .query lane offset .readEntry) :
    c = .query lane offset .readEntry := by
  unfold DispatchCall.fail at h
  split at h
  · cases c <;> cases h
  · exact h

variable {a : DispatchEvent} {b : Bool} {j : Nat}

/-- **Steps keep a lane with one commit at a time steady.** -/
theorem Steady.step (h : Steady env s) (hserial : Serial env s a) (hstep : s.step env a = some s') :
    Steady env s' := by
  cases moved_of_step hstep with
  | log _ _ => exact h.outside h.alone (fun _ _ hc => .inl hc) fun _ _ hc => hc
  | startCommit args =>
    exact h.outside (h.alone.start fun d hd hlive _ => hserial d hd hlive) (by grind) (by grind)
  | startQuery lane offset =>
    have halone : Alone env (s.calls ++ [.query lane offset .readCursor]) :=
      h.alone.start fun d hd hlive hcommit =>
        hserial d hd hlive (hcommit.resolve_right Bool.false_ne_true)
    exact h.outside halone (by grind) (by grind)
  | commit hc hcommit => exact h.commitStep hc hcommit
  | query hc hquery => exact h.queryStep hc hquery
  | fail f =>
    -- a call that failed is not live, so two live calls are two that were live before
    have halone : Alone env (s.calls.mapIdx fun j c => if f j then c.fail else c) := by
      intro i j c c' hc hc' hR
      have hlive := hR.1
      have hlive' := hR.2.1
      have hi : s.calls[i]? = some c := by grind [live_fail]
      have hj : s.calls[j]? = some c' := by grind [live_fail]
      exact h.alone i j c c' hi hj hR
    exact h.outside halone (by grind [fail_eq_commit]) (by grind [fail_eq_readEntry])

/-- The index later on: cursors have not fallen and nothing complete was lost. -/
structure IndexLater (s s' : DispatchShard) : Prop where
  keeps : s.index.Keeps s'.index
  cursors : ∀ lane, s.index.cursors lane ≤ s'.index.cursors lane

theorem IndexLater.of_eq (h : s'.index = s.index) : IndexLater s s' :=
  ⟨h.symm ▸ .refl _, fun _ => h.symm ▸ le_rfl⟩

/-- **A step loses nothing.** -/
theorem Steady.later (h : Steady env s) (hstep : s.step env a = some s') : IndexLater s s' := by
  cases moved_of_step hstep with
  | commit hc hcommit =>
    have hkeeps := (h.commits _ _ (mem_of_getElem? hc)).keeps hcommit
    exact ⟨hkeeps.1, hkeeps.2⟩
  | _ => exact .of_eq rfl

theorem fail_eq_answered (h : c.fail = .query lane offset (.answered b)) :
    c = .query lane offset (.answered b) := by
  unfold DispatchCall.fail at h
  split at h
  · cases c <;> cases h
  · exact h

/-- A call that has an answer after a step had it before, or the step gave it. -/
theorem answered_step (hstep : s.step env a = some s')
    (hj : s'.calls[j]? = some (.query lane offset (.answered b))) :
    s.calls[j]? = some (.query lane offset (.answered b)) ∨
      ∃ phase, s.calls[j]? = some (.query lane offset phase) ∧
        queryStep s.index lane offset phase = some (.answered b) := by
  cases moved_of_step hstep with
  | log _ _ => exact .inl hj
  | startCommit args => grind
  | startQuery lane' offset' => grind
  | commit hc hcommit => grind
  | query hc hquery => grind
  | fail f => grind [fail_eq_answered]

/-- A query of a complete offset that no commit disturbs is answered with yes. -/
theorem Steady.answer (h : Steady env s) (hcall : s.calls[j]? = some (.query lane offset phase))
    (hcomplete : s.index.isDispatchComplete lane offset = true)
    (hstep : BetterMQ.queryStep s.index lane offset phase = some (.answered b)) : b = true := by
  cases phase with
  | readCursor =>
    rw [BetterMQ.queryStep] at hstep
    split at hstep
    · cases hstep
      rfl
    · cases hstep
  | readEntry =>
    cases hstep
    -- the cursor has not passed the offset since it was read, so the entry is still there
    rcases isDispatchComplete_iff.mp hcomplete with hbelow | hmem
    · exact absurd hbelow (Nat.not_lt.mpr (h.queries lane offset (mem_of_getElem? hcall)))
    · exact decide_eq_true hmem
  | answered b' => cases hstep
  | failed => cases hstep

/-- **Completion is permanent**: from any state of a run on, no cursor falls, the offset of a commit
that has returned stays complete, and a query of it that starts later is answered with yes. -/
theorem completion_permanent {log : ShardLog} {as bs : List DispatchEvent}
    (hrun : Run (step env) (Serial env) (start log) as s)
    (hrest : Run (step env) (Serial env) s bs s') :
    (∀ lane, s.index.cursors lane ≤ s'.index.cursors lane) ∧
    ∀ args, .commit args .returned ∈ s.calls →
      s'.index.isDispatchComplete (env.lane args) args.offset = true ∧
      ∀ j b, s.calls.length ≤ j →
        s'.calls[j]? = some (.query (env.lane args) args.offset (.answered b)) →
        b = true := by
  have hkeep : ∀ s a s', Steady env s → Serial env s a → step env s a = some s' → Steady env s' :=
    fun _ _ _ h hserial hstep => h.step hserial hstep
  have hsteady : Steady env s := hrun.invariant (Steady env) hkeep (start_steady log)
  have hlater : IndexLater s s' :=
    hrest.related (Steady env) IndexLater (fun _ => .of_eq rfl)
      (fun h₁ h₂ => ⟨h₁.keeps.trans h₂.keeps,
        fun lane => (h₁.cursors lane).trans (h₂.cursors lane)⟩)
      hkeep (fun _ _ _ h _ hstep => h.later hstep) hsteady
  refine ⟨hlater.cursors, fun args hreturned => ?_⟩
  have hcomplete : s.index.isDispatchComplete (env.lane args) args.offset = true :=
    (hsteady.commits args .returned hreturned).complete rfl
  refine ⟨hlater.keeps _ _ hcomplete, ?_⟩
  -- over the rest of the run: steady, complete, and the answers so far are yes
  refine (hrest.invariant (fun t => Steady env t ∧
    t.index.isDispatchComplete (env.lane args) args.offset = true ∧
    ∀ j b, s.calls.length ≤ j →
      t.calls[j]? = some (.query (env.lane args) args.offset (.answered b)) → b = true)
    ?_ ⟨hsteady, hcomplete, ?_⟩).2.2
  · rintro t a t' ⟨ht, hc, hanswers⟩ hserial hstep
    refine ⟨ht.step hserial hstep, (ht.later hstep).keeps _ _ hc, fun j b hj hb => ?_⟩
    rcases answered_step hstep hb with hold | ⟨phase, hphase, hquery⟩
    · exact hanswers j b hj hold
    · exact ht.answer hphase hc hquery
  · intro j b hj hb
    exact absurd (List.getElem?_eq_some_iff.mp hb).1 (Nat.not_lt.mpr hj)

instance (s : DispatchShard) (a : DispatchEvent) : Decidable (Serial env s a) := by
  apply @DispatchEvent.casesOn (fun a => Decidable (Serial env s a)) a <;> intros <;>
    unfold Serial <;> infer_instance

/-- Two messages of the queue. -/
def queueLog : ShardLog := ⟨[queueItem 1 "orders", queueItem 2 "orders"], [], 2⟩

/-- The second message is committed, then the first. -/
theorem queueCommits_stay :
    ∃ s s', Run (step rocksEnv) (Serial rocksEnv) (start queueLog)
        (.startCommit (queueCommit "orders" 1) :: List.replicate 6 (.step 0)) s ∧
      Run (step rocksEnv) (Serial rocksEnv) s
        (.startCommit (queueCommit "orders" 0) :: List.replicate 11 (.step 1)) s' ∧
      s.index.cursors queueLane = 0 ∧ s'.index.cursors queueLane = 2 ∧
      s'.index.isDispatchComplete queueLane 1 = true := by
  exact Exists.imp (fun s => Exists.imp fun s' => and_imp_of fun hs => and_imp_of fun hs' =>
    and_imp_of fun _ => and_imp_of fun _
      (hreturned : .commit (queueCommit "orders" 1) .returned ∈ s.calls) =>
        ((completion_permanent hs hs').2 (queueCommit "orders" 1) hreturned).1) (by decide +kernel)

/-- **A completion is lost.** The commit of the first message has computed cursor 1 when the commit
of the second one stores cursor 2 and returns; then the first stores its own. The second message is
not complete any more. -/
theorem crossing_commits_lose_completion :
    ∃ s s', AnyRun (step rocksEnv) (start queueLog)
        (.startCommit (queueCommit "orders" 0) :: List.replicate 8 (.step 0) ++
          .startCommit (queueCommit "orders" 1) :: List.replicate 11 (.step 1)) s ∧
      AnyRun (step rocksEnv) s (List.replicate 2 (.step 0)) s' ∧
      .commit (queueCommit "orders" 1) .returned ∈ s.calls ∧
      s.index.isDispatchComplete queueLane 1 = true ∧
      s'.index.cursors queueLane < s.index.cursors queueLane ∧
      s'.index.isDispatchComplete queueLane 1 = false := by
  decide +kernel

end DispatchShard

end BetterMQ
