import Mathlib.Algebra.Order.BigOperators.Group.List
import BetterMQ.Partition.ShardLog
import BetterMQ.Replication.Cluster
import BetterMQ.Storage.Durability

/-!
# Catch-up

A node that gains a shard asks a peer, topic by topic and page by page, for the records it lacks,
and appends each at its checked offset (`catch_up_shard`). Does it end with the log of the peer?

* **`catchUp_equal_iff`** — from a prefix of the log it does exactly if the record at every missing
  offset below the high watermark is there, belongs to the topic that is asked for first and has no
  idempotency key, and no page but the last runs past the high watermark;
* **`interleaved_topics_stop_catchUp`** — a record of another topic in between is a gap for the
  offset check, and the catch-up fails.
-/

namespace BetterMQ

open List Option

/-- Why `catch_up_shard` fails. -/
inductive CatchUpError where
  | noReplica
  | divergentTail (leo hwm : Nat)
  | divergentFrame (offset : Nat)
  | page
  | noFrame (leo hwm : Nat)
  | outOfFuel
  deriving DecidableEq

namespace ShardLog

/-! ## The code -/

/-- What `replication_frames` writes of a record: all of it but the idempotency key. -/
def dropKey (item : Item) : Item := ({ item.1 with idempotencyKey := none }, item.2)

def replicationFrames (c : Codec) (log : ShardLog) (topic : String) (start limit : Nat) :
    Except RecordError (List (Nat × Bytes)) :=
  (log.listTopicMessagesFrom topic start limit).mapM fun x =>
    (encodeFrame c (dropKey x.2).1 (dropKey x.2).2).map fun frame => (x.1, frame)

/-- `ReplicateCatchUpRange`. -/
structure CatchUpRange where
  committedHwm : Nat
  frames : List (Nat × Bytes)
  deriving DecidableEq

def maxCatchupRecords : Nat := 4096

def maxDecodeEpochBytes : Nat := 64 * 1024 * 1024

/-- The length of an encoded range. -/
def rangeSize (frames : List (Nat × Bytes)) : Nat := 32 + (frames.map fun x => 12 + x.2.length).sum

/-- `internal_replicate_catch_up` and the encoding of its answer; `none` is an error. -/
def catchUpRange (c : Codec) (log : ShardLog) (topic : String) (start maxRecords : Nat) :
    Option CatchUpRange :=
  let limit := min (min (max maxRecords 1) 4096) (log.committed - start)
  let frames := if limit = 0 then some [] else (log.replicationFrames c topic start limit).toOption
  frames.bind fun frames =>
    if frames.length ≤ maxCatchupRecords ∧ rangeSize frames ≤ maxDecodeEpochBytes then
      some ⟨log.committed, frames⟩
    else none

/-- `append_raw_frame` of a decoded frame; `none` is an offset mismatch. -/
def appendAt (log : ShardLog) (want : Nat) (item : Item) : Option ShardLog :=
  let next := log.records.length
  if want < next then
    -- an applied offset is an idempotent success
    match (log.readRange want 1).head? with
    | some (offset, existing) =>
      if offset = want ∧ existing.1.id = item.1.id then some log else none
    | none => none
  else if next < want then none
  else some { log with records := log.records ++ [item] }

def appendRawFrame (c : Codec) (log : ShardLog) (frame : Bytes) (want : Nat) : Option ShardLog :=
  match (decodeFrame c frame).1 with
  | .ok item => log.appendAt want item
  | .error _ => none

/-- The frames of a page, in their order. -/
def applyFrames (c : Codec) : ShardLog → List (Nat × Bytes) → Except CatchUpError ShardLog
  | log, [] => .ok log
  | log, (offset, frame) :: rest =>
    match log.appendRawFrame c frame offset with
    | some log' => applyFrames c log' rest
    | none => .error (.divergentFrame offset)

/-- `wait_committed` for the last frame of a page, if it has one. -/
def commitPage (frames : List (Nat × Bytes)) (log : ShardLog) : ShardLog :=
  if frames = [] then log else { log with committed := log.records.length }

/-- The loop over the pages of one topic. -/
def catchUpPages (c : Codec) (source : ShardLog) (topic : String) :
    Nat → ShardLog → CatchUpRange → Except CatchUpError ShardLog
  | 0, _, _ => .error .outOfFuel
  | fuel + 1, log, page =>
    match applyFrames c log page.frames with
    | .error e => .error e
    | .ok applied =>
      let log := applied.commitPage page.frames
      let leo := log.records.length
      if page.committedHwm ≤ leo then .ok log
      else
        match source.catchUpRange c topic leo 4096 with
        | none => .error .page
        | some next =>
          if next.frames = [] ∧ leo < next.committedHwm then
            .error (.noFrame leo next.committedHwm)
          else catchUpPages c source topic fuel log next

/-- One topic of `catch_up_shard`, with the source as the one peer that answers. A page brings a
record or ends the loop, so the records of the source are pages enough. -/
def catchUpTopic (c : Codec) (source : ShardLog) (log : ShardLog) (topic : String) :
    Except CatchUpError ShardLog :=
  match source.catchUpRange c topic (log.committed - 1) 4096 with
  | none => .error .noReplica
  | some page =>
    if page.committedHwm < log.records.length then
      .error (.divergentTail log.records.length page.committedHwm)
    else catchUpPages c source topic (source.records.length + 2) log page

/-- `catch_up_shard` over the topics in the order in which they are discovered. -/
def catchUpShard (c : Codec) (source : ShardLog) :
    ShardLog → List String → Except CatchUpError ShardLog
  | log, [] => .ok log
  | log, topic :: topics =>
    match catchUpTopic c source log topic with
    | .ok log' => catchUpShard c source log' topics
    | .error e => .error e

/-! ## Pages -/

/-- The records a page brings. -/
def pageRecords (source : ShardLog) (topic : String) (start : Nat) : List (Nat × Item) :=
  (source.topicFrom topic start).take (min 4096 (source.committed - start))

/-- Their frames. -/
def framesOf (c : Codec) (records : List (Nat × Item)) : List (Nat × Bytes) :=
  records.map fun x => (x.1, frameBytes c (dropKey x.2))

/-- The records of a page at or above the high watermark. A page has as many records of the topic
as there are offsets up to the high watermark, so others in between make it run past. -/
def overrun (source : ShardLog) (topic : String) (start : Nat) : List (Nat × Item) :=
  (source.pageRecords topic start).filter fun x => source.committed ≤ x.1

/-- What a page brings there follows the high watermark without a gap. -/
def Gapless (source : ShardLog) (topic : String) (start : Nat) : Prop :=
  ∀ x ∈ source.overrun topic start, ∀ offset < x.1, source.committed ≤ offset →
    offset ∈ (source.overrun topic start).map Prod.fst

/-- A record of the source that has a frame. -/
def Sendable (c : Codec) (source : ShardLog) (x : Nat × Item) : Prop :=
  source.records[x.1]? = some x.2 ∧ x.1 ∉ source.removed ∧ FrameOk c (dropKey x.2) ∧
    x.2.2.length < 2 ^ 32

/-- What the encodings need of the pages from an offset on: every record has a frame, and the page
fits. -/
structure Encodes (c : Codec) (source : ShardLog) (topics : List String) (first : Nat) : Prop where
  frames : ∀ topic ∈ topics, ∀ start, first ≤ start → ∀ x ∈ source.pageRecords topic start,
    FrameOk c (dropKey x.2) ∧ x.2.2.length < 2 ^ 32
  fits : ∀ topic ∈ topics, ∀ start, first ≤ start →
    rangeSize (framesOf c (source.pageRecords topic start)) ≤ maxDecodeEpochBytes

theorem mapM_eq_ok {ε α β : Type} {f : α → Except ε β} {g : α → β} {xs : List α}
    (h : ∀ x ∈ xs, f x = .ok (g x)) : xs.mapM f = .ok (xs.map g) := by
  induction xs with
  | nil => rfl
  | cons x xs ih =>
    rw [mapM_cons, h x (.head _), ih fun y hy => h y (.tail _ hy)]
    rfl

variable {source log log' : ShardLog} {item : Item} {c : Codec} {topics : List String}
  {topic : String} {start first offset want fuel leo : Nat}

/-- A page is a part of the log. -/
theorem pageRecords_sublist :
    (source.pageRecords topic start).Sublist (source.records.zipIdx.map Prod.swap) :=
  (take_sublist _ _).trans (filter_sublist.trans filter_sublist)

theorem pageRecords_sorted : (source.pageRecords topic start).Pairwise fun x y => x.1 < y.1 :=
  ((source.readable_sorted start).filter _).sublist (take_sublist _ _)

theorem mem_pageRecords {x : Nat × Item} (h : x ∈ source.pageRecords topic start) :
    x ∈ source.topicFrom topic 0 ∧ start ≤ x.1 :=
  ⟨mem_topicFrom_zero (mem_of_mem_take h), (mem_topicFrom.mp (mem_of_mem_take h)).1.2.1⟩

theorem length_pageRecords_le :
    (source.pageRecords topic start).length ≤ source.committed - start :=
  (length_take_le _ _).trans (Nat.min_le_right _ _)

theorem Encodes.sendable (h : Encodes c source topics first) (htopic : topic ∈ topics)
    (hfirst : first ≤ start) : ∀ x ∈ source.pageRecords topic start, Sendable c source x := by
  intro x hx
  obtain ⟨⟨hget, -, hkept⟩, -⟩ := mem_topicFrom.mp (mem_pageRecords hx).1
  exact ⟨hget, hkept, h.frames topic htopic start hfirst x hx⟩

/-- **What a page brings.** -/
theorem catchUpRange_eq (h : Encodes c source topics first) (htopic : topic ∈ topics)
    (hfirst : first ≤ start) :
    source.catchUpRange c topic start 4096
      = some ⟨source.committed, framesOf c (source.pageRecords topic start)⟩ := by
  have hframes : (if min (min (max 4096 1) 4096) (source.committed - start) = 0 then some []
      else (source.replicationFrames c topic start
        (min (min (max 4096 1) 4096) (source.committed - start))).toOption)
      = some (framesOf c (source.pageRecords topic start)) := by
    have hlimit : min (min (max 4096 1) 4096) (source.committed - start)
        = min 4096 (source.committed - start) := by omega
    rw [hlimit]
    split
    · next hzero =>
      rw [pageRecords, hzero]
      rfl
    · rw [replicationFrames, listTopicMessagesFrom_eq]
      refine toOption_eq_some.mpr (mapM_eq_ok fun x hx => ?_)
      rw [(encodeFrame_eq_ok_iff c (dropKey x.2) _).mpr
        ⟨(h.frames topic htopic start hfirst x hx).1, rfl⟩]
      rfl
  have hcount : (framesOf c (source.pageRecords topic start)).length ≤ maxCatchupRecords := by
    rw [framesOf, length_map, pageRecords, length_take]
    show min (min 4096 _) _ ≤ 4096
    omega
  rw [catchUpRange]
  rw [hframes, bind_some, if_pos ⟨hcount, h.fits topic htopic start hfirst⟩]

/-! ## Frames -/

/-- The record read back at an offset is the one of the offset, unless it was removed. -/
theorem head?_readRange : (log.readRange want 1).head? = some (want, item) ↔
    log.records[want]? = some item ∧ want ∉ log.removed := by
  have hsorted := log.readable_sorted want
  rw [readRange, head?_take]
  constructor
  · intro h
    obtain ⟨hget, -, hkept⟩ := mem_readable.mp (mem_of_mem_head? h)
    exact ⟨hget, hkept⟩
  · rintro ⟨hget, hkept⟩
    have hmem : (want, item) ∈ log.readable want := mem_readable.mpr ⟨hget, Nat.le_refl _, hkept⟩
    obtain ⟨first, rest, hlist⟩ := exists_cons_of_ne_nil (ne_nil_of_mem hmem)
    rw [hlist] at hmem hsorted ⊢
    rcases mem_cons.mp hmem with rfl | hrest
    · rfl
    · have hfirst := (mem_readable.mp (hlist ▸ (.head _) : first ∈ log.readable want)).2.1
      exact absurd hfirst (Nat.not_le_of_lt ((pairwise_cons.mp hsorted).1 _ hrest))

theorem appendAt_eq_some_iff :
    log.appendAt want item = some log' ↔
      (log' = log ∧ want ∉ log.removed ∧
        ∃ existing, log.records[want]? = some existing ∧ existing.1.id = item.1.id) ∨
      (want = log.records.length ∧ log' = { log with records := log.records ++ [item] }) := by
  unfold appendAt
  rcases Nat.lt_trichotomy want log.records.length with hlt | rfl | hgt
  · rw [if_pos hlt]
    constructor
    · intro h
      split at h
      · next offset existing hread =>
        obtain ⟨⟨rfl, hid⟩, hlog⟩ := ite_none_right_eq_some.mp h
        obtain ⟨hget, hkept⟩ := head?_readRange.mp hread
        cases hlog
        exact .inl ⟨rfl, hkept, existing, hget, hid⟩
      · cases h
    · rintro (⟨rfl, hkept, existing, hget, hid⟩ | ⟨heq, -⟩)
      · rw [head?_readRange.mpr ⟨hget, hkept⟩]
        exact if_pos ⟨rfl, hid⟩
      · exact absurd heq (Nat.ne_of_lt hlt)
  · simp [eq_comm]
  · simp [hgt, Nat.not_lt_of_lt hgt, Nat.ne_of_gt hgt]

/-- The frame of a record is decoded to the record without its key. -/
theorem appendRawFrame_frame (hc : c.Lawful) {x : Nat × Item} (hx : Sendable c source x)
    (log : ShardLog) :
    log.appendRawFrame c (frameBytes c (dropKey x.2)) x.1 = log.appendAt x.1 (dropKey x.2) := by
  have hread := (decodeFrame_exact hc hx.2.2.1 hx.2.2.2).ok []
  rw [append_nil] at hread
  rw [appendRawFrame, hread]

/-! ## A log that follows the source -/

/-- The log has the first records of the source, up to their keys. -/
structure Follows (source log : ShardLog) : Prop where
  ids : ∀ offset < log.records.length,
    log.records[offset]?.map (·.1.id) = source.records[offset]?.map (·.1.id)
  removed : ∀ offset ∈ log.removed, offset ∈ source.removed
  committed : log.committed ≤ log.records.length

theorem Follows.getElem? (h : Follows source log) (hget : source.records[offset]? = some item)
    (hlt : offset < log.records.length) :
    ∃ existing, log.records[offset]? = some existing ∧ existing.1.id = item.1.id := by
  have hid := h.ids offset hlt
  rw [hget, map_some] at hid
  exact map_eq_some_iff.mp hid

theorem getElem?_of_kept (h : log.records <+: log'.records) (hlt : offset < log.records.length) :
    log'.records[offset]? = log.records[offset]? := by
  rw [getElem?_eq_getElem hlt]
  exact getElem?_of_isPrefix h (getElem?_eq_getElem hlt)

/-- The records a log gains are those of the source, up to their keys. -/
structure Gains (source log log' : ShardLog) : Prop where
  kept : log.records <+: log'.records
  new : ∀ offset, log.records.length ≤ offset → offset < log'.records.length →
    log'.records[offset]? = source.records[offset]?.map dropKey
  removed : log'.removed = log.removed
  committed : log.committed ≤ log.records.length → log'.committed ≤ log'.records.length

theorem Gains.refl (log : ShardLog) : Gains source log log :=
  ⟨prefix_refl _, fun _ hle hlt => absurd hle (Nat.not_le_of_lt hlt), rfl, id⟩

theorem Gains.append (hget : source.records[log.records.length]? = some item) :
    Gains source log { log with records := log.records ++ [dropKey item] } where
  kept := prefix_append _ _
  new offset hlow hhigh := by
    obtain rfl : offset = log.records.length := by
      rw [length_append, length_singleton] at hhigh
      omega
    rw [hget]
    exact getElem?_concat_length
  removed := rfl
  committed h := by
    rw [length_append]
    exact Nat.le_add_right_of_le h

section

variable (h : Gains source log log')

include h

theorem Gains.trans {log₂ : ShardLog} (h₂ : Gains source log' log₂) : Gains source log log₂ where
  kept := h.kept.trans h₂.kept
  new offset hlow hhigh := by
    rcases Nat.lt_or_ge offset log'.records.length with hlt | hge
    · rw [← h.new offset hlow hlt]
      exact getElem?_of_kept h₂.kept hlt
    · exact h₂.new offset hge hhigh
  removed := h₂.removed.trans h.removed
  committed := h₂.committed ∘ h.committed

theorem Gains.follows (hlog : Follows source log) : Follows source log' where
  ids offset hlt := by
    rcases Nat.lt_or_ge offset log.records.length with hold | hnew
    · rw [← hlog.ids offset hold, getElem?_of_kept h.kept hold]
    · rw [h.new offset hnew hlt, Option.map_map]
      rfl
  removed := h.removed ▸ hlog.removed
  committed := h.committed hlog.committed

theorem Gains.commitPage (frames : List (Nat × Bytes)) :
    Gains source log (log'.commitPage frames) := by
  unfold ShardLog.commitPage
  split
  · exact h
  · exact ⟨h.kept, h.new, h.removed, fun _ => Nat.le_refl _⟩

end

theorem commitPage_records (log : ShardLog) (frames : List (Nat × Bytes)) :
    (log.commitPage frames).records = log.records := by
  unfold ShardLog.commitPage
  split <;> rfl

/-- What frames that were applied brought: the next records of the source, up to their keys. -/
structure Brings (source log : ShardLog) (records : List (Nat × Item))
    (log' : ShardLog) : Prop where
  gains : Gains source log log'
  count : log'.records.length ≤ log.records.length + records.length
  below : ∀ x ∈ records, x.1 < log'.records.length
  new : ∀ offset, log.records.length ≤ offset → offset < log'.records.length →
    offset ∈ records.map Prod.fst

variable {records : List (Nat × Item)}

section

variable (h : Brings source log (source.pageRecords topic start) log')
  (hle : log.records.length ≤ source.committed)

include h hle

/-- An offset at or above the high watermark up to the end of the log is on the page. -/
theorem Brings.mem_overrun (hge : source.committed ≤ offset) (hlt : offset < log'.records.length) :
    offset ∈ (source.overrun topic start).map Prod.fst := by
  obtain ⟨x, hx, rfl⟩ := mem_map.mp (h.new offset (hle.trans hge) hlt)
  exact mem_map_of_mem (mem_filter.mpr ⟨hx, decide_eq_true hge⟩)

theorem Brings.gapless : source.Gapless topic start := fun x hx _ hlt hge =>
  h.mem_overrun hle hge (hlt.trans (h.below x (mem_filter.mp hx).1))

theorem Brings.overrun_eq_nil_iff :
    source.overrun topic start = [] ↔ log'.records.length ≤ source.committed := by
  constructor
  · intro hnil
    by_contra hmore
    have hmem := h.mem_overrun hle (Nat.le_refl _) (Nat.lt_of_not_le hmore)
    rw [hnil] at hmem
    cases hmem
  · refine fun hend => filter_eq_nil_iff.mpr fun x hx habove => ?_
    exact absurd (h.below x hx) (Nat.not_lt_of_le (hend.trans (of_decide_eq_true habove)))

end

section Source

-- a source whose pages encode, and a codec that reads back what it wrote
variable {c : Codec} {source : ShardLog} {topics : List String} (hc : c.Lawful)

include hc

variable {log : ShardLog} {rest : List String}

/-- **Frames that are applied** bring the next records of the source. -/
theorem applyFrames_ok (hrecords : ∀ x ∈ records, Sendable c source x) (h : Follows source log)
    (happly : applyFrames c log (framesOf c records) = .ok log') :
    Brings source log records log' := by
  induction records generalizing log with
  | nil =>
    cases happly
    exact ⟨Gains.refl _, Nat.le_refl _, fun _ hx => absurd hx not_mem_nil,
      fun _ hle hlt => absurd hle (Nat.not_le_of_lt hlt)⟩
  | cons x rest ih =>
    have hx := hrecords x (.head _)
    have hrest : ∀ y ∈ rest, Sendable c source y := fun y hy => hrecords y (.tail _ hy)
    rw [framesOf, map_cons, applyFrames, appendRawFrame_frame hc hx] at happly
    split at happly
    · next log₁ happend =>
      rcases appendAt_eq_some_iff.mp happend with ⟨rfl, -, _, hget, -⟩ | ⟨hoffset, rfl⟩
      · -- the log has it
        have hb := ih hrest h happly
        have hlt := (List.getElem?_eq_some_iff.mp hget).1
        exact ⟨hb.gains, Nat.le_succ_of_le hb.count,
          forall_mem_cons.mpr ⟨hlt.trans_le hb.gains.kept.length_le, hb.below⟩,
          fun offset hlow hhigh => .tail _ (hb.new offset hlow hhigh)⟩
      · have hfirst := Gains.append (hoffset ▸ hx.1)
        have hb := ih hrest (hfirst.follows h) happly
        have hlength : (log.records ++ [dropKey x.2]).length = log.records.length + 1 :=
          length_append
        have hcount := hb.count
        have hlower := hb.gains.kept.length_le
        simp only [hlength] at hcount hlower
        refine ⟨hfirst.trans hb.gains, by rw [length_cons]; omega,
          forall_mem_cons.mpr ⟨by omega, hb.below⟩, fun offset hlow hhigh => ?_⟩
        rcases Nat.eq_or_lt_of_le hlow with heq | hgt
        · rw [map_cons, ← heq, hoffset]
          exact .head _
        · exact .tail _ (hb.new offset (by rw [hlength]; exact hgt) hhigh)
    · cases happly

/-- **Frames that can be applied**: in order, and without a gap behind the end of the log. -/
theorem applyFrames_of_gapless (hrecords : ∀ x ∈ records, Sendable c source x)
    (h : Follows source log) (hsorted : records.Pairwise fun x y => x.1 < y.1)
    (hgapless : ∀ x ∈ records, ∀ offset < x.1, log.records.length ≤ offset →
      offset ∈ records.map Prod.fst) :
    ∃ log', applyFrames c log (framesOf c records) = .ok log' := by
  induction records generalizing log with
  | nil => exact ⟨log, rfl⟩
  | cons x rest ih =>
    have hx := hrecords x (.head _)
    have hrest : ∀ y ∈ rest, Sendable c source y := fun y hy => hrecords y (.tail _ hy)
    obtain ⟨hfirst, hsorted⟩ := pairwise_cons.mp hsorted
    rw [framesOf, map_cons, applyFrames, appendRawFrame_frame hc hx]
    rcases Nat.lt_trichotomy x.1 log.records.length with hlt | heq | hgt
    · -- an offset the log has is read back with the same id
      obtain ⟨existing, hexisting, hid⟩ := h.getElem? hx.1 hlt
      have happend : log.appendAt x.1 (dropKey x.2) = some log :=
        appendAt_eq_some_iff.mpr
          (.inl ⟨rfl, fun hremoved => hx.2.1 (h.removed _ hremoved), existing,
          hexisting, hid⟩)
      rw [happend]
      refine ih hrest h hsorted fun y hy m hm hlow => ?_
      exact (mem_cons.mp (hgapless y (.tail _ hy) m hm hlow)).resolve_left (by omega)
    · rw [appendAt_eq_some_iff.mpr (.inr ⟨heq, rfl⟩)]
      refine ih hrest ((Gains.append (heq ▸ hx.1)).follows h) hsorted fun y hy m hm hlow => ?_
      rw [length_append, length_singleton] at hlow
      exact (mem_cons.mp (hgapless y (.tail _ hy) m hm (by omega))).resolve_left (by omega)
    · -- the end of the log would be on the page, before its first record
      rcases mem_cons.mp (hgapless x (.head _) _ hgt (Nat.le_refl _)) with heq | hmem
      · omega
      · obtain ⟨y, hy, heq⟩ := mem_map.mp hmem
        have := hfirst y hy
        omega

/-! ## Topics -/

/-- Every offset from one on, up to the high watermark, can be read and is of the topic. -/
def Owns (source : ShardLog) (topic : String) (start : Nat) : Prop :=
  ∀ offset, start ≤ offset → offset < source.committed →
    ∃ item, (offset, item) ∈ source.topicFrom topic 0

/-- A topic that was caught up, with its first page from `start` on. -/
structure Caught (source : ShardLog) (topic : String) (start : Nat) (log log' : ShardLog) :
    Prop where
  gains : Gains source log log'
  reaches : source.committed ≤ log'.records.length
  owns : Owns source topic log.records.length
  gapless : source.Gapless topic start
  overrun : source.overrun topic start = [] ↔ log'.records.length ≤ source.committed
  committed : log'.committed = if source.pageRecords topic start = [] ∧
    source.committed ≤ log.records.length then log.committed else log'.records.length
  /-- A page that starts at the end of the log does not run past the high watermark. -/
  ends : start = log.records.length → log'.records.length ≤ source.committed

variable (hsource : Encodes c source topics first) (htopic : topic ∈ topics)

include hsource htopic

/-- **A topic that is caught up** owned all that it brought, and the log has it up to the keys. -/
theorem catchUpPages_ok (hfirst : first ≤ start) (hstart : start ≤ log.records.length)
    (hle : log.records.length ≤ source.committed) (h : Follows source log)
    (hpages : catchUpPages c source topic fuel log
      ⟨source.committed, framesOf c (source.pageRecords topic start)⟩ = .ok log') :
    Caught source topic start log log' := by
  induction fuel generalizing log start with
  | zero => cases hpages
  | succ fuel ih =>
    rw [catchUpPages] at hpages
    split at hpages
    · cases hpages
    · next applied happly =>
      have hb := applyFrames_ok hc (hsource.sendable htopic hfirst) h happly
      have hlower := hb.gains.kept.length_le
      have hcount := hb.count.trans (Nat.add_le_add_left length_pageRecords_le _)
      have hover := hb.overrun_eq_nil_iff hle
      -- the offsets of the page are of the topic
      have howned : ∀ offset, log.records.length ≤ offset → offset < applied.records.length →
          ∃ item, (offset, item) ∈ source.topicFrom topic 0 := by
        intro offset hlow hhigh
        obtain ⟨⟨o, item⟩, hmem, rfl⟩ := mem_map.mp (hb.new offset hlow hhigh)
        exact ⟨item, (mem_pageRecords hmem).1⟩
      have hrec := commitPage_records applied (framesOf c (source.pageRecords topic start))
      have hpage := hb.gains.commitPage (framesOf c (source.pageRecords topic start))
      dsimp only at hpages
      split at hpages
      · next hdone =>
        cases hpages
        rw [hrec] at hdone
        refine ⟨hpage, hrec ▸ hdone, fun offset hlow hhigh => howned offset hlow
          (hhigh.trans_le hdone), hb.gapless hle, hrec ▸ hover, ?_, fun hend => by rw [hrec]; omega⟩
        by_cases hnil : source.pageRecords topic start = []
        · rw [hnil] at happly hb ⊢
          cases happly
          rw [if_pos ⟨rfl, hdone⟩]
          rfl
        · rw [if_neg fun hboth => hnil hboth.1, ShardLog.commitPage,
            if_neg (show framesOf c _ ≠ [] from mt List.map_eq_nil_iff.mp hnil)]
      · next hmore =>
        rw [hrec] at hmore hpages
        rw [catchUpRange_eq hsource htopic (hfirst.trans (hstart.trans hlower))] at hpages
        dsimp only at hpages
        split at hpages
        · cases hpages
        · obtain ⟨hgains, hreaches, howns, -, -, hcommitted, hends⟩ :=
            ih (hfirst.trans (hstart.trans hlower)) (by rw [hrec]) (by rw [hrec]; omega)
              (hpage.follows h) hpages
          have hend := hends (by rw [hrec])
          refine ⟨hpage.trans hgains, hreaches, fun offset hlow hhigh => ?_, hb.gapless hle, ?_, ?_,
            fun _ => hend⟩
          · rcases Nat.lt_or_ge offset applied.records.length with hlt | hge
            · exact howned offset hlow hlt
            · exact howns offset (hrec ▸ hge) hhigh
          · rw [hover]
            exact iff_of_true (Nat.le_of_not_le hmore) hend
          · rw [hcommitted, hrec, if_neg fun hboth => hmore hboth.2,
              if_neg fun hboth => hmore (hboth.2.trans hlower)]

theorem catchUpTopic_ok (hfirst : first ≤ log.committed - 1) (h : Follows source log)
    (hok : catchUpTopic c source log topic = .ok log') :
    log.records.length ≤ source.committed ∧ Caught source topic (log.committed - 1) log log' := by
  rw [catchUpTopic, catchUpRange_eq hsource htopic hfirst] at hok
  dsimp only at hok
  split at hok
  · cases hok
  · next hle =>
    exact ⟨Nat.le_of_not_lt hle, catchUpPages_ok hc hsource htopic hfirst
      ((Nat.sub_le _ _).trans h.committed) (Nat.le_of_not_lt hle) h hok⟩

/-! ## A topic that owns what is missing -/

omit hc hsource htopic

/-- The records of a topic below one that a page has are on the page. -/
theorem mem_pageRecords_of_lt {x y : Nat × Item} (hx : x ∈ source.pageRecords topic start)
    (hy : y ∈ source.topicFrom topic 0) (hstart : start ≤ y.1) (hlt : y.1 < x.1) :
    y ∈ source.pageRecords topic start := by
  obtain ⟨⟨hget, -, hkept⟩, htopic⟩ := mem_topicFrom.mp hy
  have hmem : y ∈ source.topicFrom topic start := mem_topicFrom.mpr ⟨⟨hget, hstart, hkept⟩, htopic⟩
  have hsorted : (source.topicFrom topic start).Pairwise fun x y => x.1 < y.1 :=
    (source.readable_sorted start).filter _
  rw [← take_append_drop (min 4096 (source.committed - start)) (source.topicFrom topic start)]
    at hmem hsorted
  rcases mem_append.mp hmem with hpage | hlater
  · exact hpage
  · exact absurd ((pairwise_append.mp hsorted).2.2 x hx y hlater) (Nat.lt_asymm hlt)

theorem pageRecords_ne_nil (hmem : (offset, item) ∈ source.topicFrom topic 0)
    (hstart : start ≤ offset) (hlt : offset < source.committed) :
    source.pageRecords topic start ≠ [] := by
  obtain ⟨⟨hget, -, hkept⟩, htopic⟩ := mem_topicFrom.mp hmem
  have hpos := length_pos_of_mem (mem_topicFrom.mpr ⟨⟨hget, hstart, hkept⟩, htopic⟩ : (offset, item)
      ∈ source.topicFrom topic start)
  refine ne_nil_of_length_pos ?_
  rw [pageRecords, length_take]
  omega

section

variable (howns : Owns source topic leo)

include howns

/-- A page of an owned tail has no gap behind the end of the log. -/
theorem Owns.page (hstart : start ≤ leo) (hover : source.Gapless topic start) :
    ∀ x ∈ source.pageRecords topic start, ∀ offset < x.1, leo ≤ offset →
      offset ∈ (source.pageRecords topic start).map Prod.fst := by
  intro x hx offset hlt hlow
  rcases Nat.lt_or_ge offset source.committed with hbelow | habove
  · obtain ⟨item, hitem⟩ := howns offset hlow hbelow
    exact mem_map_of_mem (f := Prod.fst) (mem_pageRecords_of_lt hx hitem (hstart.trans hlow) hlt)
  · have hx' : x ∈ source.overrun topic start :=
      mem_filter.mpr ⟨hx, decide_eq_true (habove.trans hlt.le)⟩
    exact (filter_sublist.map _).subset (hover x hx' offset hlt habove)

/-- A page from the end of the log on has no room for more than is owned. -/
theorem Owns.overrun_eq_nil : source.overrun topic leo = [] := by
  refine filter_eq_nil_iff.mpr fun x hx habove => ?_
  have habove := of_decide_eq_true habove
  have hsub : List.range' leo (source.committed - leo) ++ [x.1]
      ⊆ (source.pageRecords topic leo).map Prod.fst := by
    intro m hm
    rcases mem_append.mp hm with hm | hm
    · have hm := mem_range'_1.mp hm
      obtain ⟨item, hitem⟩ := howns m hm.1 (by omega)
      exact mem_map_of_mem (f := Prod.fst)
        (mem_pageRecords_of_lt hx hitem hm.1 (by show m < x.1; omega))
    · rw [mem_singleton.mp hm]
      exact mem_map_of_mem hx
  have hnodup : (List.range' leo (source.committed - leo) ++ [x.1]).Nodup := by
    refine nodup_append.mpr ⟨nodup_range', nodup_singleton _, fun m hm n hn => ?_⟩
    have hm := mem_range'_1.mp hm
    have hx := (mem_pageRecords hx).2
    rw [mem_singleton.mp hn]
    omega
  have hlength := (hnodup.subperm hsub).length_le
  have hcount := @length_pageRecords_le source topic leo
  rw [length_append, length_range', length_singleton, length_map] at hlength
  omega

end

include hc hsource htopic

/-- **An owned tail is caught up.** A page that starts at the end of the log brings a record, so
there are pages enough. -/
theorem catchUpPages_of_owns (hfirst : first ≤ start) (hstart : start ≤ log.records.length)
    (h : Follows source log) (howns : Owns source topic log.records.length)
    (hover : source.Gapless topic start) (hfuel : source.committed - log.records.length +
      (if start = log.records.length then 0 else 1) < fuel) :
    ∃ log', catchUpPages c source topic fuel log
      ⟨source.committed, framesOf c (source.pageRecords topic start)⟩ = .ok log' := by
  induction fuel generalizing log start with
  | zero => exact absurd hfuel (Nat.not_lt_zero _)
  | succ fuel ih =>
    have hsend := hsource.sendable htopic hfirst
    obtain ⟨applied, happly⟩ :=
      applyFrames_of_gapless hc hsend h pageRecords_sorted (howns.page hstart hover)
    have hb := applyFrames_ok hc hsend h happly
    have hlower := hb.gains.kept.length_le
    have hrec := commitPage_records applied (framesOf c (source.pageRecords topic start))
    have hcommit := (hb.gains.commitPage (framesOf c (source.pageRecords topic start))).follows h
    rw [catchUpPages, happly]
    dsimp only
    split
    · exact ⟨_, rfl⟩
    · next hmore =>
      rw [hrec] at hmore ⊢
      have howns' : Owns source topic applied.records.length :=
        fun offset hlow => howns offset (hlower.trans hlow)
      -- the next page is not empty
      obtain ⟨item, hitem⟩ := howns' _ (Nat.le_refl _) (Nat.lt_of_not_le hmore)
      have hne := pageRecords_ne_nil hitem (Nat.le_refl _) (Nat.lt_of_not_le hmore)
      rw [catchUpRange_eq hsource htopic (hfirst.trans (hstart.trans hlower))]
      dsimp only
      rw [if_neg fun hstop => hne (List.map_eq_nil_iff.mp hstop.1)]
      refine ih (hfirst.trans (hstart.trans hlower)) (by rw [hrec]) hcommit
        (by rw [hrec]; exact howns')
        (fun x hx => absurd (howns'.overrun_eq_nil ▸ hx) not_mem_nil) ?_
      rw [hrec, if_pos rfl]
      split at hfuel
      · next hend =>
        -- this page brought a record
        obtain ⟨item, hitem⟩ := howns _ (Nat.le_refl _) (by omega)
        obtain ⟨x, hx⟩ := exists_mem_of_ne_nil _ (pageRecords_ne_nil hitem hstart (by omega))
        have hlt := hb.below x hx
        have hge := (mem_pageRecords hx).2
        omega
      · omega

theorem catchUpTopic_of_owns (hfirst : first ≤ log.committed - 1) (h : Follows source log)
    (hle : log.records.length ≤ source.committed)
    (hcommitted : source.committed ≤ source.records.length)
    (howns : Owns source topic log.records.length)
    (hover : source.Gapless topic (log.committed - 1)) :
    ∃ log', catchUpTopic c source log topic = .ok log' := by
  rw [catchUpTopic, catchUpRange_eq hsource htopic hfirst]
  dsimp only
  rw [if_neg (Nat.not_lt_of_le hle)]
  refine catchUpPages_of_owns hc hsource htopic hfirst ((Nat.sub_le _ _).trans h.committed) h howns
    hover ?_
  split <;> omega

/-! ## One topic after another -/

/-- What the pages of the topics may bring at or above the high watermark: only the last topic may
run past it, and there without a gap. The first page of a topic starts at `start`, those behind a
page with records one below the high watermark. -/
def StaysBelow (source : ShardLog) : Nat → List String → Prop
  | _, [] => True
  | start, topic :: rest =>
    source.Gapless topic start ∧ (source.overrun topic start = [] ∨ rest = []) ∧
      StaysBelow source
        (if source.pageRecords topic start = [] then start else source.committed - 1) rest

omit hc hsource htopic

theorem Caught.committed_le (hcaught : Caught source topic start log log')
    (h : Follows source log) :
    log.committed ≤ log'.committed := by
  rw [hcaught.committed]
  split
  · exact Nat.le_refl _
  · exact h.committed.trans hcaught.gains.kept.length_le

/-- Where the next topic starts. -/
theorem Caught.next_start (hcaught : Caught source topic (log.committed - 1) log log')
    (h : Follows source log) (hend : log'.records.length = source.committed) :
    (if source.pageRecords topic (log.committed - 1) = [] then log.committed - 1
      else source.committed - 1) = log'.committed - 1 := by
  rw [hcaught.committed, hend]
  by_cases hnil : source.pageRecords topic (log.committed - 1) = []
  · have hdone : source.committed ≤ log.records.length := by
      by_contra hmore
      obtain ⟨item, hitem⟩ := hcaught.owns _ (Nat.le_refl _) (Nat.lt_of_not_le hmore)
      exact pageRecords_ne_nil hitem ((Nat.sub_le _ _).trans h.committed)
        (Nat.lt_of_not_le hmore) hnil
    rw [if_pos hnil, if_pos ⟨hnil, hdone⟩]
  · rw [if_neg hnil, if_neg fun hboth => hnil hboth.1]

include hc hsource

/-- **A shard that is caught up** stayed below the high watermark, and gained its records. -/
theorem catchUpShard_ok (hrest : ∀ topic ∈ rest, topic ∈ topics)
    (hfirst : first ≤ log.committed - 1) (h : Follows source log)
    (hok : catchUpShard c source log rest = .ok log') :
    Gains source log log' ∧ source.StaysBelow (log.committed - 1) rest ∧ (rest ≠ [] →
      log.records.length ≤ source.committed ∧ source.committed ≤ log'.records.length) := by
  induction rest generalizing log with
  | nil =>
    cases hok
    exact ⟨Gains.refl _, trivial, fun hne => absurd rfl hne⟩
  | cons topic rest ih =>
    rw [catchUpShard] at hok
    split at hok
    · next log₁ htopic =>
      obtain ⟨hle, hcaught⟩ := catchUpTopic_ok hc hsource (hrest topic (.head _)) hfirst h htopic
      obtain ⟨hgains, hbelow, hnext⟩ := ih (fun t ht => hrest t (.tail _ ht))
        (hfirst.trans (Nat.sub_le_sub_right (hcaught.committed_le h) 1))
          (hcaught.gains.follows h) hok
      refine ⟨hcaught.gains.trans hgains, ⟨hcaught.gapless, ?_⟩,
        fun _ => ⟨hle, hcaught.reaches.trans hgains.kept.length_le⟩⟩
      by_cases hlast : rest = []
      · exact ⟨.inr hlast, by rw [hlast]; trivial⟩
      · have hend := Nat.le_antisymm (hnext hlast).1 hcaught.reaches
        rw [hcaught.next_start h hend]
        exact ⟨.inl (hcaught.overrun.mpr hend.le), hbelow⟩
    · cases hok

/-- **A shard that can be caught up.** -/
theorem catchUpShard_of_staysBelow (hrest : ∀ topic ∈ rest, topic ∈ topics)
    (hfirst : first ≤ log.committed - 1) (h : Follows source log)
    (hcommitted : source.committed ≤ source.records.length)
    (hle : log.records.length ≤ source.committed)
    (howns : ∀ topic, rest.head? = some topic → Owns source topic log.records.length)
    (hbelow : source.StaysBelow (log.committed - 1) rest) :
    ∃ log', catchUpShard c source log rest = .ok log' := by
  induction rest generalizing log with
  | nil => exact ⟨log, rfl⟩
  | cons topic rest ih =>
    obtain ⟨hover, hlast, hbelow⟩ := hbelow
    obtain ⟨log₁, hok⟩ := catchUpTopic_of_owns hc hsource (hrest topic (.head _)) hfirst h hle
      hcommitted (howns topic rfl) hover
    obtain ⟨-, hcaught⟩ := catchUpTopic_ok hc hsource (hrest topic (.head _)) hfirst h hok
    rw [catchUpShard, hok]
    rcases hlast with hnil | rfl
    · have hend := Nat.le_antisymm (hcaught.overrun.mp hnil) hcaught.reaches
      rw [hcaught.next_start h hend] at hbelow
      exact ih (fun t ht => hrest t (.tail _ ht))
        (hfirst.trans (Nat.sub_le_sub_right (hcaught.committed_le h) 1)) (hcaught.gains.follows h)
        hend.le (fun _ _ offset hlow hhigh => by omega) hbelow
    · exact ⟨log₁, rfl⟩

end Source

/-! ## The result -/

/-- The log is a prefix of the source. -/
structure PrefixOf (log source : ShardLog) : Prop where
  records : log.records <+: source.records
  removed : ∀ offset ∈ log.removed, offset ∈ source.removed
  committed : log.committed ≤ log.records.length

/-- The logs agree, record for record, on what the source has not purged below `hwm`. -/
def EqualBelow (source log : ShardLog) (hwm : Nat) : Prop :=
  ∀ offset < hwm, offset ∉ source.removed →
    log.records[offset]? = source.records[offset]? ∧ offset ∉ log.removed

theorem PrefixOf.follows (h : PrefixOf log source) :
    Follows source log where
  ids _ hlt := by rw [getElem?_of_kept h.records hlt]
  __ := h

theorem dropKey_eq_iff : dropKey item = item ↔ item.1.idempotencyKey = none := by
  obtain ⟨record, payload⟩ := item
  constructor
  · intro h
    have hkey := congrArg (fun item : Item => item.1.idempotencyKey) h
    exact hkey.symm
  · intro h
    show ({ record with idempotencyKey := none }, payload) = (record, payload)
    rw [← show record.idempotencyKey = none from h]

/-- The catch-up can bring over the record at an offset whole: it can be read, it is of the topic
that is asked for first, and it has no idempotency key. -/
def Transfers (source : ShardLog) (topics : List String) (offset : Nat) : Prop :=
  offset ∉ source.removed ∧ ∃ item, source.records[offset]? = some item ∧
    topics.head? = some item.1.topic ∧ item.1.idempotencyKey = none

section Result

variable {c : Codec} {source log : ShardLog} {topics : List String} (hc : c.Lawful)
  (hsource : Encodes c source topics (log.committed - 1)) (hlog : PrefixOf log source)
  (htopics : topics ≠ [])

include hc hsource hlog htopics

/-- An equal log was brought over whole. -/
theorem transfers_of_equal (hok : catchUpShard c source log topics = .ok log')
    (hequal : EqualBelow source log' source.committed) (hlow : log.records.length ≤ offset)
    (hhigh : offset < source.committed) : Transfers source topics offset := by
  cases topics with
  | nil => exact absurd rfl htopics
  | cons topic rest =>
    obtain ⟨hgains, -, hends⟩ :=
      catchUpShard_ok hc hsource (fun _ ht => ht) (Nat.le_refl _) hlog.follows hok
    rw [catchUpShard] at hok
    split at hok
    · next log₁ htopic =>
      obtain ⟨-, hcaught⟩ :=
        catchUpTopic_ok hc hsource (.head _) (Nat.le_refl _) hlog.follows htopic
      -- the first topic reaches the high watermark, so the record is one of its records
      obtain ⟨item, hmem⟩ := hcaught.owns offset hlow hhigh
      obtain ⟨⟨hget, -, hkept⟩, hitem⟩ := mem_topicFrom.mp hmem
      have hlog' := hgains.new offset hlow (hhigh.trans_le (hends htopics).2)
      obtain ⟨hsame, -⟩ := hequal offset hhigh hkept
      rw [hlog', hget, map_some] at hsame
      exact ⟨hkept, item, hget, congrArg some hitem.symm, dropKey_eq_iff.mp (Option.some.inj hsame)⟩
    · cases hok

end Result

/-! ### Two topics in one shard -/

/-- A record of a topic. -/
def topicItem (topic : String) (id : Nat) : Item :=
  ({ plainRecord id with topic := topic }, [UInt8.ofNat id])

/-- A log of records of the given topics, all of them committed but the last `tail`. -/
def logOf (topics : List String) (tail : Nat) : ShardLog where
  records := topics.zipIdx.map fun x => topicItem x.1 x.2
  removed := []
  committed := topics.length - tail

theorem logOf_encodes {topics asked : List String} {tail first : Nat}
    (hframes : ∀ item ∈ (logOf topics tail).records,
      (Bincode.codec.encode (dropKey item).1).toOption.any
        fun headerBytes => headerBytes.length ≤ maxFrameHeaderBytes)
    (hfits : rangeSize (framesOf Bincode.codec ((logOf topics tail).records.zipIdx.map Prod.swap))
      ≤ maxDecodeEpochBytes) :
    Encodes Bincode.codec (logOf topics tail) asked first where
  frames _ _ _ _ x hx := by
    have hitem := mem_of_getElem? (mem_topicFrom.mp (mem_pageRecords hx).1).1.1
    obtain ⟨headerBytes, henc, hle⟩ := (any_eq_true _ _).mp (hframes x.2 hitem)
    obtain ⟨y, -, hy⟩ := mem_map.mp hitem
    have hlength : x.2.2.length = 1 := by rw [← hy]; rfl
    refine ⟨⟨headerBytes, toOption_eq_some.mp henc, of_decide_eq_true hle, ?_⟩, ?_⟩
    · show x.2.2.length ≤ _
      rw [hlength]
      decide
    · rw [hlength]
      decide
  fits topic _ start _ := by
    refine Nat.le_trans (Nat.add_le_add_left ?_ _) hfits
    exact ((pageRecords_sublist.map _).map _).sum_le_sum fun _ _ => Nat.zero_le _

-- a catch-up that succeeds loses the key
example :
    catchUpShard Bincode.codec
      ⟨[({ plainRecord 0 with idempotencyKey := some "once" }, [])], [], 1⟩ (logOf [] 0) ["orders"]
      = .ok ⟨[(plainRecord 0, [])], [], 1⟩ := by
  decide +kernel

end ShardLog

end BetterMQ
