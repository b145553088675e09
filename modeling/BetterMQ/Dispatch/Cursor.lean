import BetterMQ.Dispatch.Lane

/-!
# Committing dispatch offsets (`commit_dispatch_offset` in `broker-dispatch/src/worker.rs`)

A commit marks its offset, then walks over the messages of its topic from the lane's cursor on and
stores as the new cursor the first message of the lane that is not complete. Here any number of
commits, and of calls of `is_dispatch_complete`, run at once on one shard, one access to the log or
the metadata store at a step, while records are appended, committed and purged.

* **`CommitOk.step`** — what a commit has established about the messages below the place where it
  stands, kept by each of its steps;
* **`cursor_covers_marked`** — below the cursor of a lane every message of the lane was marked, if
  the messages of a lane carry the topic that its commits name;
* **`two_topics_skip_message`** — a message is passed over where they do not.
-/

namespace BetterMQ

open Function List Option

/-! ## The calls -/

/-- What the calls on a shard read besides its state. -/
structure DispatchEnv where
  v5 : String → Uuid
  partition : UInt32
  backend : MetaBackend

/-- The lane key of a record of the shard. -/
def DispatchEnv.keyOf (env : DispatchEnv) (x : Nat × Item) : String :=
  cursorKey env.v5 (Tenants.message env.partition x)

structure CommitArgs where
  tenantId : String
  topic : String
  cursorKey : String
  offset : Nat
  deriving DecidableEq

def DispatchEnv.lane (env : DispatchEnv) (args : CommitArgs) : LaneId :=
  ⟨args.tenantId, args.cursorKey, env.partition⟩

/-- Where a call of `commit_dispatch_offset` stands. Its first completion read only feeds the
telemetry and is left out. -/
inductive CommitPhase where
  | readCursor
  | mark (cursor : Nat)
  | readHwm (cursor : Nat)
  /-- At the head of the loop over the pages. -/
  | page (cursor hwm next : Nat)
  /-- In a page of `count` messages, of which `rest` is left. -/
  | check (cursor hwm next : Nat) (rest : List (Nat × Item)) (count : Nat)
  /-- The cursor was below the message; its completion entry is read next. -/
  | checkEntry (cursor hwm : Nat) (x : Nat × Item) (rest : List (Nat × Item)) (count : Nat)
  | set (next : Nat)
  /-- `set_dispatch_offset` has read which entries to delete. -/
  | write (next : Nat) (deleted : List Nat)
  | returned
  | failed
  deriving DecidableEq

/-- Where a call of `is_dispatch_complete` stands. -/
inductive QueryPhase where
  | readCursor
  | readEntry
  | answered (complete : Bool)
  | failed
  deriving DecidableEq

inductive DispatchCall where
  | commit (args : CommitArgs) (phase : CommitPhase)
  | query (lane : LaneId) (offset : Nat) (phase : QueryPhase)
  deriving DecidableEq

/-- A shard with the calls on it. -/
structure DispatchShard where
  log : ShardLog
  index : DispatchIndex
  /-- Every mark that a commit ever made; no step reads it. -/
  marked : LaneId → List Nat
  calls : List DispatchCall

/-- A shard of which nothing was dispatched yet. -/
def DispatchShard.start (log : ShardLog) : DispatchShard :=
  ⟨log, .empty, fun _ => [], []⟩

/-! ## Steps of a commit -/

def commitPage : Nat := 256

/-- The end of the loop: the cursor is stored if it moved. -/
def CommitPhase.finish (cursor next : Nat) : CommitPhase :=
  if next = cursor then .returned else .set next

/-- How a step of a commit changes the index. -/
inductive IndexEffect where
  | none
  | mark
  | write (next : Nat) (deleted : List Nat)

def commitStep (env : DispatchEnv) (log : ShardLog) (ix : DispatchIndex) (args : CommitArgs) :
    CommitPhase → Option (IndexEffect × CommitPhase)
  | .readCursor =>
    let cursor := ix.cursors (env.lane args)
    some (.none, if args.offset < cursor then .returned else .mark cursor)
  | .mark cursor => some (.mark, .readHwm cursor)
  | .readHwm cursor => some (.none, .page cursor log.committed cursor)
  | .page cursor hwm next =>
    if next < hwm then
      let messages := log.listTopicMessagesFrom args.topic next commitPage
      if messages = [] then some (.none, .finish cursor hwm)
      else some (.none, .check cursor hwm next messages messages.length)
    else some (.none, .finish cursor next)
  | .check cursor hwm next [] count =>
    some (.none, if count < commitPage then .finish cursor hwm else .page cursor hwm next)
  | .check cursor hwm _ (x :: rest) count =>
    if env.keyOf x ≠ args.cursorKey then some (.none, .check cursor hwm (x.1 + 1) rest count)
    else if x.1 < ix.cursors (env.lane args) then
      some (.none, .check cursor hwm (x.1 + 1) rest count)
    else some (.none, .checkEntry cursor hwm x rest count)
  | .checkEntry cursor hwm x rest count =>
    if x.1 ∈ ix.completed (env.lane args) then
      some (.none, .check cursor hwm (x.1 + 1) rest count)
    else some (.none, .finish cursor x.1)
  | .set next =>
    let lane := env.lane args
    let deleted := DispatchIndex.covered env.backend (ix.cursors lane) next (ix.completed lane)
    -- the shared file is read and written under its lock
    if env.backend = .shared then some (.write next deleted, .returned)
    else some (.none, .write next deleted)
  | .write next deleted => some (.write next deleted, .returned)
  | .returned => none
  | .failed => none

section

variable (e : IndexEffect) (lane : LaneId) (offset : Nat)

def IndexEffect.onIndex (ix : DispatchIndex) : DispatchIndex :=
  match e with
  | .none => ix
  | .mark => ix.markDispatchComplete lane offset
  | .write next deleted => ix.setDispatchOffset lane next deleted

def IndexEffect.onMarked (marked : LaneId → List Nat) : LaneId → List Nat :=
  match e with
  | .mark => Function.update marked lane (offset :: marked lane)
  | _ => marked

end

def queryStep (ix : DispatchIndex) (lane : LaneId) (offset : Nat) :
    QueryPhase → Option QueryPhase
  | .readCursor => some (if offset < ix.cursors lane then .answered true else .readEntry)
  | .readEntry => some (.answered (offset ∈ ix.completed lane))
  | .answered _ => none
  | .failed => none

/-! ## The machine -/

/-- The call has not ended. -/
def DispatchCall.live : DispatchCall → Bool
  | .commit _ phase => phase ≠ .returned ∧ phase ≠ .failed
  | .query _ _ phase => phase = .readCursor ∨ phase = .readEntry

/-- An error of the log or the metadata store ends the call. -/
def DispatchCall.fail (c : DispatchCall) : DispatchCall :=
  if c.live then
    match c with
    | .commit args _ => .commit args .failed
    | .query lane offset _ => .query lane offset .failed
  else c

inductive DispatchEvent where
  | append (item : Item)
  /-- The committed high watermark moves. -/
  | advance (hwm : Nat)
  | purge (offset : Nat)
  | startCommit (args : CommitArgs)
  | startQuery (lane : LaneId) (offset : Nat)
  | step (i : Nat)
  | fail (i : Nat)
  /-- The process dies and is started again. -/
  | restart
  deriving DecidableEq

namespace DispatchShard

/-- The next access of call `i`. -/
def stepCall (env : DispatchEnv) (s : DispatchShard) (i : Nat) : DispatchCall → Option DispatchShard
  | .commit args phase =>
    (commitStep env s.log s.index args phase).map fun r =>
      { s with
        index := r.1.onIndex (env.lane args) args.offset s.index
        marked := r.1.onMarked (env.lane args) args.offset s.marked
        calls := s.calls.set i (.commit args r.2) }
  | .query lane offset phase =>
    (queryStep s.index lane offset phase).map fun phase =>
      { s with calls := s.calls.set i (.query lane offset phase) }

def step (env : DispatchEnv) (s : DispatchShard) : DispatchEvent → Option DispatchShard
  | .append item => some { s with log := s.log.append item }
  | .advance hwm =>
    if s.log.committed ≤ hwm ∧ hwm ≤ s.log.records.length then
      some { s with log := { s.log with committed := hwm } }
    else none
  | .purge offset => some { s with log := (s.log.purge offset).2 }
  | .startCommit args => some { s with calls := s.calls ++ [.commit args .readCursor] }
  | .startQuery lane offset => some { s with calls := s.calls ++ [.query lane offset .readCursor] }
  | .step i => (s.calls[i]?).bind (s.stepCall env i)
  | .fail i => (s.calls[i]?).map fun c => { s with calls := s.calls.set i c.fail }
  | .restart => some { s with calls := s.calls.map DispatchCall.fail }

end DispatchShard

variable {log log' : ShardLog} {ix : DispatchIndex} {args : CommitArgs} {phase phase' : CommitPhase}

theorem commitStep_write {env : DispatchEnv} {next : Nat} {deleted : List Nat}
    (h : commitStep env log ix args phase = some (.write next deleted, phase')) :
    phase' = .returned ∧ (phase = .write next deleted ∨ (phase = .set next ∧
      deleted = DispatchIndex.covered env.backend (ix.cursors (env.lane args)) next
        (ix.completed (env.lane args)))) := by
  cases phase with
  | set next' =>
    rw [commitStep] at h
    split at h
    · cases h
      exact ⟨rfl, .inr ⟨rfl, rfl⟩⟩
    · cases h
  | write next' deleted' =>
    cases h
    exact ⟨rfl, .inl rfl⟩
  | page cursor hwm next' =>
    rw [commitStep] at h
    dsimp only at h
    split at h
    · split at h <;> cases h
    · cases h
  | check cursor hwm next' rest count =>
    cases rest with
    | nil => cases h
    | cons x rest =>
      rw [commitStep] at h
      split at h
      · cases h
      · split at h <;> cases h
  | checkEntry cursor hwm x rest count =>
    rw [commitStep] at h
    split at h <;> cases h
  | readCursor => cases h
  | mark cursor => cases h
  | readHwm cursor => cases h
  | returned => cases h
  | failed => cases h

/-! ## What lies below a cursor -/

/-- The log of a shard later on. -/
structure ShardLog.Later (log log' : ShardLog) : Prop where
  records : log.records <+: log'.records
  removed : ∀ o ∈ log.removed, o ∈ log'.removed

theorem ShardLog.Later.length_le (h : log.Later log') :
    log.records.length ≤ log'.records.length := h.records.length_le

theorem ShardLog.Later.readable (h : log.Later log') {start : Nat} {x : Nat × Item}
    (hx : x ∈ log'.readable start) (hold : x.1 < log.records.length) : x ∈ log.readable start := by
  obtain ⟨hget, hstart, hkept⟩ := mem_readable.mp hx
  refine mem_readable.mpr ⟨?_, hstart, fun hremoved => hkept (h.removed _ hremoved)⟩
  obtain ⟨more, hmore⟩ := h.records
  rw [← hmore, getElem?_append_left hold] at hget
  exact hget

theorem ShardLog.later_refl (log : ShardLog) : log.Later log :=
  ⟨prefix_refl _, fun _ h => h⟩

namespace DispatchEnv

variable {env : DispatchEnv} {log log' : ShardLog} {marked marked' : LaneId → List Nat}
  {lane : LaneId} {args : CommitArgs} {n next hwm count bound : Nat} {x : Nat × Item}
  {rest : List (Nat × Item)} {topic : String}

/-- Every message of the lane below `n` was marked. -/
structure Covered (env : DispatchEnv) (log : ShardLog) (marked : LaneId → List Nat) (lane : LaneId)
    (n : Nat) : Prop where
  le : n ≤ log.records.length
  marked : ∀ x ∈ log.readable 0, env.keyOf x = lane.cursorKey → x.1 < n → x.1 ∈ marked lane

theorem Covered.later (h : env.Covered log marked lane n) (hlog : log.Later log')
    (hmarked : ∀ lane o, o ∈ marked lane → o ∈ marked' lane) :
    env.Covered log' marked' lane n where
  le := h.le.trans hlog.length_le
  marked := by
    intro x hx hkey hlt
    exact hmarked lane _ (h.marked x (hlog.readable hx (hlt.trans_le h.le)) hkey hlt)

theorem covered_zero : env.Covered log marked lane 0 := ⟨Nat.zero_le _, fun _ _ _ h => by omega⟩

/-- The rest of a page: all messages of the topic from `next` on up to some offset, which is at
least `hwm` if the page was not full. -/
structure PageRest (log : ShardLog) (topic : String) (next hwm : Nat) (rest : List (Nat × Item))
    (count bound : Nat) : Prop where
  le : bound ≤ log.records.length
  sorted : rest.Pairwise fun x y => x.1 < y.1
  stored : ∀ y ∈ rest, log.records[y.1]? = some y.2
  within : ∀ y ∈ rest, next ≤ y.1 ∧ y.1 < bound
  all : ∀ x ∈ log.topicFrom topic next, x.1 < bound → x ∈ rest
  last : count < commitPage → hwm ≤ bound

theorem PageRest.later (h : PageRest log topic next hwm rest count bound) (hlog : log.Later log') :
    PageRest log' topic next hwm rest count bound where
  le := h.le.trans hlog.length_le
  __ := h
  stored := fun y hy => getElem?_of_isPrefix hlog.records (h.stored y hy)
  all := by
    intro x hx hlt
    obtain ⟨hread, htopic⟩ := mem_filter.mp hx
    exact h.all x (mem_filter.mpr ⟨hlog.readable hread (hlt.trans_le h.le), htopic⟩) hlt

section

variable (h : PageRest log topic next hwm (x :: rest) count bound)

include h

theorem PageRest.tail :
    PageRest log topic (x.1 + 1) hwm rest count bound where
  __ := h
  sorted := (pairwise_cons.mp h.sorted).2
  stored := fun y hy => h.stored y (.tail _ hy)
  within := by
    intro y hy
    exact ⟨(pairwise_cons.mp h.sorted).1 y hy, (h.within y (.tail _ hy)).2⟩
  all := by
    intro y hy hlt
    obtain ⟨⟨hget, hle, hkept⟩, htopic⟩ := ShardLog.mem_topicFrom.mp hy
    have hnext : next ≤ y.1 := by
      have := (h.within x (.head _)).1
      omega
    have hmem := h.all y (ShardLog.mem_topicFrom.mpr ⟨⟨hget, hnext, hkept⟩, htopic⟩) hlt
    rcases mem_cons.mp hmem with rfl | hmem
    · omega
    · exact hmem

theorem PageRest.head :
    PageRest log topic x.1 hwm (x :: rest) count bound where
  __ := h
  within := by
    intro y hy
    refine ⟨?_, (h.within y hy).2⟩
    rcases mem_cons.mp hy with rfl | hy
    · exact le_rfl
    · exact ((pairwise_cons.mp h.sorted).1 y hy).le
  all := by
    intro y hy
    obtain ⟨⟨hget, hle, hkept⟩, htopic⟩ := ShardLog.mem_topicFrom.mp hy
    have hnext := (h.within x (.head _)).1.trans hle
    exact h.all y (ShardLog.mem_topicFrom.mpr ⟨⟨hget, hnext, hkept⟩, htopic⟩)

end

theorem pageRest_listTopicMessagesFrom (topic : String) (next : Nat)
    (hhwm : hwm ≤ log.records.length) :
    ∃ bound, PageRest log topic next hwm (log.listTopicMessagesFrom topic next commitPage)
      (log.listTopicMessagesFrom topic next commitPage).length bound := by
  rw [ShardLog.listTopicMessagesFrom_eq]
  set page := (log.topicFrom topic next).take commitPage with hpage
  have hsorted : page.Pairwise fun x y => x.1 < y.1 :=
    (log.topicFrom_sorted topic next).sublist (take_sublist _ _)
  have hstored : ∀ y ∈ page, log.records[y.1]? = some y.2 :=
    fun y hy => (ShardLog.mem_topicFrom.mp (mem_of_mem_take hy)).1.1
  have hin : ∀ y ∈ page, next ≤ y.1 ∧ y.1 < log.records.length := by
    intro y hy
    obtain ⟨⟨hget, hle, -⟩, -⟩ := ShardLog.mem_topicFrom.mp (mem_of_mem_take hy)
    exact ⟨hle, (List.getElem?_eq_some_iff.mp hget).1⟩
  by_cases hfull : page.length < commitPage
  · -- everything was read
    have hall : page = log.topicFrom topic next := by
      rw [take_eq_self_iff]
      rw [length_take] at hfull
      omega
    exact ⟨log.records.length, le_rfl, hsorted, hstored, hin, fun x hx _ => hall ▸ hx,
      fun _ => hhwm⟩
  · cases hlast : page.getLast? with
    | none =>
      rw [getLast?_eq_none_iff.mp hlast] at hfull
      exact absurd (by decide) hfull
    | some last =>
      have hmem : last ∈ page := mem_of_getLast? hlast
      refine ⟨last.1 + 1, (hin last hmem).2, hsorted, hstored, fun y hy => ⟨(hin y hy).1, ?_⟩, ?_,
        fun hcount => absurd hcount hfull⟩
      · exact Nat.lt_succ_of_le (ShardLog.le_last hsorted hlast hy)
      · intro x hx hlt
        have hafter := ShardLog.filter_after (log.topicFrom_sorted topic next) hlast
        rw [← take_append_drop commitPage (log.topicFrom topic next)] at hx
        rcases mem_append.mp hx with htake | hdrop
        · exact htake
        · rw [← hafter] at hdrop
          have := of_decide_eq_true (mem_filter.mp hdrop).2
          omega

/-- The messages of the lane carry the topic that the commit names. -/
def OneTopic (env : DispatchEnv) (log : ShardLog) (args : CommitArgs) : Prop :=
  ∀ x ∈ log.readable 0, env.keyOf x = args.cursorKey → x.2.1.topic = args.topic

theorem OneTopic.mem_topicFrom (h : env.OneTopic log args) (hx : x ∈ log.readable 0)
    (hkey : env.keyOf x = args.cursorKey) (hnext : next ≤ x.1) :
    x ∈ log.topicFrom args.topic next := by
  obtain ⟨hget, -, hkept⟩ := ShardLog.mem_readable.mp hx
  exact ShardLog.mem_topicFrom.mpr ⟨⟨hget, hnext, hkept⟩, h x hx hkey⟩

section

variable (h : env.Covered log marked (env.lane args) next) (htopic : env.OneTopic log args)

include h htopic

section

variable (hrest : PageRest log args.topic next hwm (x :: rest) count bound)

include hrest

theorem Covered.upTo :
    env.Covered log marked (env.lane args) x.1 where
  le := ((hrest.within x (.head _)).2.trans_le hrest.le).le
  marked := by
    intro y hy hkey hlt
    by_cases hold : y.1 < next
    · exact h.marked y hy hkey hold
    · have hmem := hrest.all y (htopic.mem_topicFrom hy hkey (Nat.le_of_not_lt hold))
        (hlt.trans (hrest.within x (.head _)).2)
      rcases mem_cons.mp hmem with rfl | hmem
      · omega
      · have := (pairwise_cons.mp hrest.sorted).1 y hmem
        omega

theorem Covered.past (hx : x ∈ log.readable 0 → env.keyOf x = args.cursorKey →
      x.1 ∈ marked (env.lane args)) :
    env.Covered log marked (env.lane args) (x.1 + 1) where
  le := (hrest.within x (.head _)).2.trans_le hrest.le
  marked := by
    intro y hy hkey hlt
    rcases Nat.lt_succ_iff_lt_or_eq.mp hlt with hbelow | heq
    · exact (h.upTo htopic hrest).marked y hy hkey hbelow
    · -- the offset holds one record
      have hget := (ShardLog.mem_readable.mp hy).1
      rw [heq, hrest.stored x (.head _), some_inj] at hget
      obtain rfl : x = y := Prod.ext heq.symm hget
      exact hx hy hkey

end

theorem Covered.pastLast (hrest : PageRest log args.topic next hwm [] count bound)
    (hcount : count < commitPage) :
    env.Covered log marked (env.lane args) hwm where
  le := (hrest.last hcount).trans hrest.le
  marked := by
    intro y hy hkey hlt
    by_cases hold : y.1 < next
    · exact h.marked y hy hkey hold
    · exact absurd (hrest.all y (htopic.mem_topicFrom hy hkey (Nat.le_of_not_lt hold))
        (hlt.trans_le (hrest.last hcount))) not_mem_nil

end

/-- What a running commit has established. -/
def CommitOk (env : DispatchEnv) (log : ShardLog) (marked : LaneId → List Nat)
    (args : CommitArgs) : CommitPhase → Prop
  | .mark cursor | .readHwm cursor => env.Covered log marked (env.lane args) cursor
  | .page _ hwm next =>
    env.Covered log marked (env.lane args) next ∧ hwm ≤ log.records.length
  | .check _ hwm next rest count =>
    env.Covered log marked (env.lane args) next ∧ hwm ≤ log.records.length ∧
      ∃ bound, PageRest log args.topic next hwm rest count bound
  | .checkEntry _ hwm x rest count =>
    env.Covered log marked (env.lane args) x.1 ∧ hwm ≤ log.records.length ∧
      ∃ bound, PageRest log args.topic x.1 hwm (x :: rest) count bound
  | .set next | .write next _ => env.Covered log marked (env.lane args) next
  | .readCursor | .returned | .failed => True

theorem commitOk_finish {cursor : Nat} (h : env.Covered log marked (env.lane args) next) :
    env.CommitOk log marked args (.finish cursor next) := by
  unfold CommitPhase.finish
  split
  · trivial
  · exact h

theorem CommitOk.later (h : env.CommitOk log marked args phase) (hlog : log.Later log')
    (hmarked : ∀ lane o, o ∈ marked lane → o ∈ marked' lane) :
    env.CommitOk log' marked' args phase := by
  cases phase with
  | readCursor => trivial
  | returned => trivial
  | failed => trivial
  | mark | readHwm | set | write => exact Covered.later h hlog hmarked
  | page cursor hwm next => exact ⟨h.1.later hlog hmarked, h.2.trans hlog.length_le⟩
  | check | checkEntry =>
    obtain ⟨hcovered, hhwm, bound, hrest⟩ := h
    exact ⟨hcovered.later hlog hmarked, hhwm.trans hlog.length_le, bound, hrest.later hlog⟩

/-- **A step of a commit** keeps what it has established. -/
theorem CommitOk.step {e : IndexEffect} (h : env.CommitOk log marked args phase)
    (htopic : env.OneTopic log args) (hhwm : log.committed ≤ log.records.length)
    (hcursor : env.Covered log marked (env.lane args) (ix.cursors (env.lane args)))
    (hmarks : ∀ o ∈ ix.completed (env.lane args), o ∈ marked (env.lane args))
    (hstep : commitStep env log ix args phase = some (e, phase')) :
    env.CommitOk log marked args phase' := by
  cases phase with
  | readCursor =>
    cases hstep
    split
    · trivial
    · exact hcursor
  | mark cursor =>
    cases hstep
    exact h
  | readHwm cursor =>
    cases hstep
    exact ⟨h, hhwm⟩
  | page cursor hwm next =>
    obtain ⟨hcovered, hle⟩ := h
    obtain ⟨bound, hrest⟩ := pageRest_listTopicMessagesFrom args.topic next hle
    rw [commitStep] at hstep
    dsimp only at hstep
    split at hstep
    · split at hstep
      · next hempty =>
        cases hstep
        rw [hempty] at hrest
        exact commitOk_finish (hcovered.pastLast htopic hrest (by decide))
      · cases hstep
        exact ⟨hcovered, hle, bound, hrest⟩
    · cases hstep
      exact commitOk_finish hcovered
  | check cursor hwm next rest count =>
    obtain ⟨hcovered, hle, bound, hrest⟩ := h
    cases rest with
    | nil =>
      cases hstep
      split
      · next hcount => exact commitOk_finish (hcovered.pastLast htopic hrest hcount)
      · exact ⟨hcovered, hle⟩
    | cons x rest =>
      rw [commitStep] at hstep
      split at hstep
      · next hother =>
        cases hstep
        have hpast := hcovered.past htopic hrest fun _ hkey => absurd hkey hother
        exact ⟨hpast, hle, bound, hrest.tail⟩
      · split at hstep
        · next hbelow =>
          cases hstep
          have hpast := hcovered.past htopic hrest fun hx hkey => hcursor.marked x hx hkey hbelow
          exact ⟨hpast, hle, bound, hrest.tail⟩
        · cases hstep
          exact ⟨hcovered.upTo htopic hrest, hle, bound, hrest.head⟩
  | checkEntry cursor hwm x rest count =>
    obtain ⟨hcovered, hle, bound, hrest⟩ := h
    rw [commitStep] at hstep
    split at hstep
    · next hmem =>
      cases hstep
      have hpast := hcovered.past htopic hrest fun _ _ => hmarks x.1 hmem
      exact ⟨hpast, hle, bound, hrest.tail⟩
    · cases hstep
      exact commitOk_finish hcovered
  | set next =>
    rw [commitStep] at hstep
    split at hstep
    · cases hstep
      trivial
    · cases hstep
      exact h
  | write next deleted =>
    cases hstep
    trivial
  | returned => cases hstep
  | failed => cases hstep

end DispatchEnv

/-! ## Cursors over whole runs -/

/-- A commit finds only messages of its topic in its lane. -/
def DispatchCall.OneTopic (env : DispatchEnv) (log : ShardLog) : DispatchCall → Prop
  | .commit args _ => env.OneTopic log args
  | .query _ _ _ => True

namespace DispatchShard

variable {env : DispatchEnv} {s s' : DispatchShard}

/-- What holds between any two steps. -/
structure Safe (env : DispatchEnv) (s : DispatchShard) : Prop where
  hwm : s.log.committed ≤ s.log.records.length
  cursors : ∀ lane, env.Covered s.log s.marked lane (s.index.cursors lane)
  marks : ∀ lane o, o ∈ s.index.completed lane → o ∈ s.marked lane
  calls : ∀ args phase, .commit args phase ∈ s.calls → env.CommitOk s.log s.marked args phase

/-- A commit that goes on finds only messages of its topic in its lane. -/
def TopicOk (env : DispatchEnv) (s : DispatchShard) : DispatchEvent → Prop
  | .step i => ∀ c ∈ s.calls[i]?, c.OneTopic env s.log
  | _ => True

theorem start_safe (h : log.committed ≤ log.records.length) :
    Safe env (start log) where
  hwm := h
  cursors := fun _ => DispatchEnv.covered_zero
  marks := nofun
  calls := fun _ _ hc => absurd hc not_mem_nil

theorem Safe.outside (h : Safe env s) {calls : List DispatchCall} (hlog : s.log.Later log)
    (hhwm : log.committed ≤ log.records.length) (hcalls : ∀ args phase, .commit args phase ∈ calls →
      .commit args phase ∈ s.calls ∨ phase = .readCursor ∨ phase = .failed) :
    Safe env { s with log := log, calls := calls } where
  hwm := hhwm
  cursors := fun lane => (h.cursors lane).later hlog fun _ _ ho => ho
  marks := h.marks
  calls := by
    intro args phase hc
    rcases hcalls args phase hc with hold | rfl | rfl
    · exact (h.calls args phase hold).later hlog fun _ _ ho => ho
    · trivial
    · trivial

theorem fail_eq_commit {c : DispatchCall} (h : c.fail = .commit args phase) :
    c = .commit args phase ∨ phase = .failed := by
  unfold DispatchCall.fail at h
  split at h
  · cases c with
    | commit args' phase' =>
      cases h
      exact .inr rfl
    | query lane offset phase' => cases h
  · exact .inl h

theorem purge_later (log : ShardLog) (offset : Nat) : log.Later (log.purge offset).2 where
  records := by rw [ShardLog.purge_records]
  removed := by
    intro o ho
    unfold ShardLog.purge
    split
    · exact ho
    · exact .tail _ ho

theorem purge_committed (log : ShardLog) (offset : Nat) :
    (log.purge offset).2.committed = log.committed := by
  unfold ShardLog.purge
  split <;> rfl

variable {e : IndexEffect} {marked : LaneId → List Nat}

theorem mem_onMarked {lane lane' : LaneId} {offset o : Nat} (h : o ∈ marked lane') :
    o ∈ e.onMarked lane offset marked lane' := by
  unfold IndexEffect.onMarked
  split
  · by_cases hlane : lane' = lane
    · subst hlane
      rw [update_self]
      exact .tail _ h
    · rwa [update_of_ne hlane]
  · exact h

theorem mem_completed_onIndex {lane lane' : LaneId} {offset o : Nat}
    (hmarks : ∀ lane o, o ∈ ix.completed lane → o ∈ marked lane)
    (h : o ∈ (e.onIndex lane offset ix).completed lane') :
    o ∈ e.onMarked lane offset marked lane' := by
  cases e with
  | none => exact hmarks lane' o h
  | mark =>
    rcases DispatchIndex.mem_completed_mark.mp h with ⟨rfl, rfl⟩ | hold
    · show o ∈ update marked lane' (o :: marked lane') lane'
      rw [update_self]
      exact .head _
    · exact mem_onMarked (hmarks lane' o hold)
  | write next deleted =>
    refine hmarks lane' o ?_
    change o ∈ update ix.completed lane _ lane' at h
    by_cases hlane : lane' = lane
    · subst hlane
      rw [update_self] at h
      exact (mem_filter.mp h).1
    · rwa [update_of_ne hlane] at h

theorem Safe.commitStep (h : Safe env s) {i : Nat} (hcall : s.calls[i]? = some (.commit args phase))
    (htopic : env.OneTopic s.log args)
    (hstep : commitStep env s.log s.index args phase = some (e, phase')) :
    Safe env { s with
      index := e.onIndex (env.lane args) args.offset s.index
      marked := e.onMarked (env.lane args) args.offset s.marked
      calls := s.calls.set i (.commit args phase') } := by
  have hok := h.calls args phase (mem_of_getElem? hcall)
  have hlater := s.log.later_refl
  have hmono : ∀ lane o, o ∈ s.marked lane →
      o ∈ e.onMarked (env.lane args) args.offset s.marked lane :=
    fun _ _ ho => mem_onMarked ho
  refine ⟨h.hwm, fun lane => ?_, fun _ _ ho => mem_completed_onIndex h.marks ho, ?_⟩
  · refine DispatchEnv.Covered.later ?_ hlater hmono
    cases e with
    | none | mark => exact h.cursors lane
    | write next deleted =>
      show env.Covered s.log s.marked lane (update s.index.cursors (env.lane args) next lane)
      by_cases hlane : lane = env.lane args
      · subst hlane
        rw [update_self]
        obtain ⟨-, rfl | ⟨rfl, -⟩⟩ := commitStep_write hstep
        · exact hok
        · exact hok
      · rw [update_of_ne hlane]
        exact h.cursors lane
  · intro args' phase'' hc
    rcases mem_or_eq_of_mem_set hc with hold | hnew
    · exact (h.calls args' phase'' hold).later hlater hmono
    · cases hnew
      exact (hok.step htopic h.hwm (h.cursors _) (h.marks _) hstep).later hlater hmono

/-- **What a step can be.** -/
inductive Moved (env : DispatchEnv) (s : DispatchShard) : DispatchEvent → DispatchShard → Prop where
  | log {a log} (h : s.log.Later log)
      (hhwm : s.log.committed ≤ s.log.records.length → log.committed ≤ log.records.length) :
      Moved env s a { s with log := log }
  | startCommit (args : CommitArgs) :
      Moved env s (.startCommit args) { s with calls := s.calls ++ [.commit args .readCursor] }
  | startQuery (lane : LaneId) (offset : Nat) :
      Moved env s (.startQuery lane offset)
        { s with calls := s.calls ++ [.query lane offset .readCursor] }
  | commit {i args phase e phase'} (hc : s.calls[i]? = some (.commit args phase))
      (h : commitStep env s.log s.index args phase = some (e, phase')) :
      Moved env s (.step i) { s with
        index := e.onIndex (env.lane args) args.offset s.index
        marked := e.onMarked (env.lane args) args.offset s.marked
        calls := s.calls.set i (.commit args phase') }
  | query {i lane offset phase phase'} (hc : s.calls[i]? = some (.query lane offset phase))
      (h : queryStep s.index lane offset phase = some phase') :
      Moved env s (.step i) { s with calls := s.calls.set i (.query lane offset phase') }
  /-- Some calls end with an error. -/
  | fail {a} (f : Nat → Bool) :
      Moved env s a { s with calls := s.calls.mapIdx fun j c => if f j then c.fail else c }

theorem moved_of_step {a : DispatchEvent} (h : s.step env a = some s') : Moved env s a s' := by
  cases a with
  | append item =>
    cases h
    refine .log ⟨prefix_append _ _, fun _ ho => ho⟩ fun hwm => ?_
    exact hwm.trans (prefix_append _ _).length_le
  | advance hwm =>
    obtain ⟨hhwm, h⟩ := ite_none_right_eq_some.mp h
    cases h
    exact .log ⟨prefix_refl _, fun _ ho => ho⟩ fun _ => hhwm.2
  | purge offset =>
    cases h
    refine .log (purge_later s.log offset) fun hwm => ?_
    rwa [purge_committed, ShardLog.purge_records]
  | startCommit args =>
    cases h
    exact .startCommit args
  | startQuery lane offset =>
    cases h
    exact .startQuery lane offset
  | step i =>
    obtain ⟨c, hc, h⟩ := bind_eq_some_iff.mp h
    cases c with
    | commit args phase =>
      obtain ⟨⟨e, phase'⟩, hcommit, rfl⟩ := map_eq_some_iff.mp h
      exact .commit hc hcommit
    | query lane offset phase =>
      obtain ⟨phase', hquery, rfl⟩ := map_eq_some_iff.mp h
      exact .query hc hquery
  | fail i =>
    obtain ⟨c, hc, rfl⟩ := map_eq_some_iff.mp h
    have hset : s.calls.set i c.fail
        = s.calls.mapIdx fun j c => if decide (j = i) then c.fail else c := by
      refine ext_getElem? fun j => ?_
      grind
    rw [hset]
    exact .fail fun j => j = i
  | restart =>
    cases h
    have hmap : s.calls.map DispatchCall.fail
        = s.calls.mapIdx fun j c => if (fun _ => true) j then c.fail else c := by
      refine ext_getElem? fun j => ?_
      simp
    rw [hmap]
    exact .fail fun _ => true

/-- **Steps keep cursors safe.** -/
theorem Safe.step {a : DispatchEvent} (h : Safe env s) (hgood : TopicOk env s a)
    (hstep : s.step env a = some s') : Safe env s' := by
  cases moved_of_step hstep with
  | log hlog hhwm => exact h.outside hlog (hhwm h.hwm) fun _ _ hc => .inl hc
  | commit hc hcommit => exact h.commitStep hc (hgood _ hc) hcommit
  | startCommit | startQuery | query => exact h.outside s.log.later_refl h.hwm (by grind)
  | fail f => exact h.outside s.log.later_refl h.hwm (by grind [fail_eq_commit])

/-- **Below a cursor everything was marked**: a message of a lane, committed or not, that is not
purged and lies below the cursor of the lane was marked by a commit. -/
theorem cursor_covers_marked {log : ShardLog} (hlog : log.committed ≤ log.records.length)
    {as : List DispatchEvent} (hrun : Run (step env) (TopicOk env) (start log) as s) {lane : LaneId}
    {x : Nat × Item} (hx : x ∈ s.log.readable 0) (hkey : env.keyOf x = lane.cursorKey)
    (hbelow : x.1 < s.index.cursors lane) : x.1 ∈ s.marked lane := by
  have hsafe : Safe env s :=
    hrun.invariant (Safe env) (fun _ _ _ h hgood hstep => h.step hgood hstep) (start_safe hlog)
  exact (hsafe.cursors lane).marked x hx hkey hbelow

instance (log : ShardLog) (c : DispatchCall) : Decidable (c.OneTopic env log) := by
  cases c <;> unfold DispatchCall.OneTopic <;> try unfold DispatchEnv.OneTopic
  all_goals infer_instance

instance (s : DispatchShard) (a : DispatchEvent) : Decidable (TopicOk env s a) := by
  cases a <;> unfold TopicOk <;> infer_instance

/-- A message of the queue with id 7. -/
def queueItem (id : Uuid) (topic : String) : Item :=
  ({ LogRecordLegacy.upgrade ⟨id, "default", topic, "k", none, 0⟩ with queueId := some 7 }, [])

/-- A shard with RocksDB metadata. -/
def rocksEnv : DispatchEnv := ⟨fun _ => 0, 0, .rocks⟩

/-- The lane of the queue with id 7. -/
def queueLane : LaneId := ⟨"default", uuidString 7, 0⟩

/-- A commit in the lane of the queue. -/
def queueCommit (topic : String) (offset : Nat) : CommitArgs :=
  ⟨"default", topic, uuidString 7, offset⟩

/-- Two messages of the queue, of which the first is committed as complete. -/
theorem queueCommit_covers :
    let log : ShardLog := ⟨[queueItem 1 "orders", queueItem 2 "orders"], [], 2⟩
    ∃ s, Run (step rocksEnv) (TopicOk rocksEnv) (start log)
        (.startCommit (queueCommit "orders" 0) :: List.replicate 10 (.step 0)) s ∧
      s.index.cursors queueLane = 1 ∧ 0 ∈ s.marked queueLane := by
  intro log
  exact Exists.imp (fun s => and_imp_of fun hs => and_imp_of fun hcursor
    (hread : (0, queueItem 1 "orders") ∈ s.log.readable 0) =>
      cursor_covers_marked (by decide) hs hread (by decide +kernel) (by rw [hcursor]; decide))
    (by decide +kernel)

/-- **A message is passed over.** The queue was deleted before its delayed message was published, so
that this one lies under `__direct`, in the lane of the queue. When it is complete, the cursor
passes the other message of the lane, which no commit marked. -/
theorem two_topics_skip_message :
    let log : ShardLog := ⟨[queueItem 1 "orders", queueItem 2 directTopic], [], 2⟩
    ∃ s, AnyRun (step rocksEnv) (start log)
        (.startCommit (queueCommit directTopic 1) :: List.replicate 9 (.step 0)) s ∧
      (0, queueItem 1 "orders") ∈ s.log.readable 0 ∧ 0 < s.log.committed ∧
      rocksEnv.keyOf (0, queueItem 1 "orders") = queueLane.cursorKey ∧
      s.index.cursors queueLane = 2 ∧ 0 ∉ s.marked queueLane := by
  intro log
  decide +kernel

end DispatchShard

end BetterMQ
