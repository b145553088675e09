import BetterMQ.Storage.Checkpoint

/-!
# Range reads against the history of a log

What callers of a log may rely on is an `Account`: the records they appended, in order, and the
offsets they purged. The machine of this module runs a log over its life, closes and opens it, and
keeps the account beside it; it has no crashes, and a call that fails ends the run.

* **`Steady.readRange`** — on a log without leftovers in its index, the dense and the sparse path
  together read the account;
* **`Audited.step_ok`** — every call, close and open keeps a log steady;
* **`readRange_agrees_with_account`** — so every range read of every run agrees with the account.
-/

namespace BetterMQ

open List Option Prog

variable {env : Env} {shard : UInt32} {fmt : WalFormat} {s : Sys} {c : Codec} {op : LogOp}

/-! ## The account -/

/-- The records appended to a log, and the offsets purged. -/
structure Account where
  items : List Item
  purged : List Nat

namespace Account

def empty : Account := ⟨[], []⟩

/-- The first `max` records from offset `start` on that are not purged, in the order of offsets. -/
def read (a : Account) (partition : UInt32) (start max : Nat) : List StoredMessage :=
  (visible start a.purged (messagesFrom partition 0 a.items)).take max

def record (a : Account) (items : List Item) : Account := { a with items := a.items ++ items }

/-- What a call that went through does to the account. A replicated frame that names an offset
already taken is a retry. -/
def apply (env : Env) (a : Account) : LogOp → Account
  | .append _ header payload _ => a.record [(header, payload)]
  | .appendBatch _ items _ => a.record items
  | .appendRaw _ frame none => a.record (rawItems env frame)
  | .appendRaw _ frame (some want) =>
    if want < a.items.length then a else a.record (rawItems env frame)
  | .purge offset => if offset < a.items.length then { a with purged := offset :: a.purged } else a
  | .sync | .flushIfDue _ | .injectFsyncFailure | .gc _ => a

end Account

theorem visible_congr {start : Nat} {purged purged' : List Nat} (h : ∀ o, o ∈ purged ↔ o ∈ purged')
    (messages : List StoredMessage) :
    visible start purged messages = visible start purged' messages := by
  refine filter_congr fun message _ => ?_
  simp only [h]

/-! ## Reading the account -/

namespace Account

variable {a : Account} {partition : UInt32} {offset : Nat}

theorem read_end (h : a.items.length ≤ offset) (max : Nat) : a.read partition offset max = [] := by
  rw [read, visible_messagesFrom_eq_nil (by rw [Nat.zero_add]; exact h), take_nil]

theorem read_next {item : Item} (hget : a.items[offset]? = some item) (hkept : offset ∉ a.purged)
    (max : Nat) :
    a.read partition offset (max + 1)
      = storedMessage item.1 item.2 partition offset :: a.read partition (offset + 1) max := by
  have hbefore : ∀ start, offset ≤ start →
      visible start a.purged (messagesFrom partition 0 (a.items.take offset)) = [] :=
    fun start hstart => visible_messagesFrom_eq_nil (by rw [length_take]; omega)
  have hbehind : ∀ m ∈ messagesFrom partition (offset + 1) (a.items.drop (offset + 1)),
      offset + 1 ≤ m.offset := fun m hm => (messagesFrom_bounds hm).1
  have hrest : visible offset a.purged
        (messagesFrom partition (offset + 1) (a.items.drop (offset + 1)))
      = visible (offset + 1) a.purged
        (messagesFrom partition (offset + 1) (a.items.drop (offset + 1))) := by
    refine filter_congr fun m hm => ?_
    have hge := hbehind m hm
    rw [decide_eq_decide]
    exact and_congr_left fun _ => ⟨fun _ => hge, fun _ => Nat.le_of_succ_le hge⟩
  rw [read, read, messagesFrom_split partition hget, visible_append, visible_append,
    hbefore offset le_rfl, hbefore (offset + 1) (Nat.le_succ _), nil_append, nil_append,
    visible_cons, visible_cons, if_pos ⟨le_rfl, hkept⟩,
    if_neg fun h => absurd h.1 (Nat.not_succ_le_self offset), hrest, take_succ_cons]

theorem mem_read {m : StoredMessage} {max : Nat} (h : m ∈ a.read partition offset max) :
    offset ≤ m.offset ∧ m.offset ∉ a.purged :=
  of_decide_eq_true (mem_filter.mp (mem_of_mem_take h)).2

end Account

/-! ## The machine -/

/-- The call succeeds. -/
def LogOp.succeeds (env : Env) (s : Sys) : LogOp → Bool
  | .append partition header payload fence =>
    (appendFenced env partition header payload fence s).1.toBool
  | .appendBatch partition items fence =>
    (BetterMQ.appendBatch env partition items fence s).1.toBool
  | .appendRaw partition frame expected => (appendRawFrame env partition frame expected s).1.toBool
  | .sync => (BetterMQ.sync s).1.toBool
  | .flushIfDue due => (BetterMQ.flushIfDue due s).1.toBool
  | .purge offset => (purgeOffset offset s).1.toBool
  | .injectFsyncFailure => (BetterMQ.injectFsyncFailure s).1.toBool
  | .gc watermark => (gcSealedBelow watermark s).1.toBool

/-- A directory, the log open on it, and the account of what was done to it. -/
structure Audited where
  disk : Disk
  log : Option PartitionLog
  account : Account

namespace Audited

def fresh : Audited := ⟨.fresh, none, .empty⟩

/-- One action that does not fail. -/
def step (env : Env) (shard : UInt32) (a : Audited) : Action → Option Audited
  | .openLog config requested now =>
    match a.log with
    | some _ => none
    | none =>
      match openForShard env config shard requested now ⟨a.disk, []⟩ with
      | (.error _, _) => none
      | (.ok log, st) => some ⟨st.disk, some log, a.account⟩
  | .call op => a.log.bind fun log =>
    if op.succeeds env (a.disk.sys log) then
      let s := op.run env (a.disk.sys log)
      some ⟨s.disk, some s.log, a.account.apply env op⟩
    else none
  | .close => a.log.map fun log =>
    ⟨(dropLog (a.disk.sys log)).2.disk, none, a.account⟩

/-- A directory is opened with at most a million segments; a call keeps to `OpOk`. -/
def ActionOk (env : Env) (a : Audited) : Action → Prop
  | .openLog .. => a.disk.Few
  | .call op => ∀ log, a.log = some log → OpOk env log op
  | .close => True

theorem step_call (hsuccess : op.succeeds env s = true) (account : Account)
    (htrace : s.trace = []) :
    step env shard ⟨s.disk, some s.log, account⟩ (.call op)
      = some ⟨(op.run env s).disk, some (op.run env s).log, account.apply env op⟩ := by
  obtain ⟨⟨disk, trace⟩, log⟩ := s
  cases htrace
  exact if_pos hsuccess

end Audited

/-! ## Steady logs -/

/-- An index without leftovers that hides every tombstone is the index of the records shown. -/
theorem Indexes.exact {purged : List Nat} {xs : List (Placed c)} {next : Nat} {index : Index}
    (h : Indexes purged xs next index) (hbelow : ∀ e ∈ index, e.1 < next)
    (hhidden : Hidden purged index) : index = scannedIndex purged .wal xs := by
  obtain ⟨hidden, junk, hsubset, rfl, hjunk⟩ := h
  have hnone : junk = [] := by
    refine eq_nil_iff_forall_not_mem.mpr fun e he => ?_
    exact absurd (hbelow e (mem_append_right _ he)) (Nat.not_lt.mpr (hjunk e he))
  rw [hnone, append_nil]
  unfold scannedIndex
  congr 1
  refine filter_congr fun x hx => ?_
  rw [decide_eq_decide]
  constructor
  · intro hshown
    refine hhidden (x.entry .wal) (mem_append_left _ ?_)
    exact mem_map_of_mem (mem_filter.mpr ⟨hx, decide_eq_true hshown⟩)
  · exact fun hkept hmem => hkept (hsubset _ hmem)

/-- A live log that holds the records of the account and hides exactly those purged. -/
structure Steady {c : Codec} (fmt : WalFormat) (shard : UInt32) (account : Account) (L : Layout c)
    (s : Sys) : Prop where
  live : Live fmt false L s
  shard : s.shardId = shard
  items : L.items = account.items
  index : IndexBelow s.log
  hidden : Hidden s.purgedOffsets s.index
  below : TombstonesBelow s.log
  purged : ∀ o, o ∈ s.purgedOffsets ↔ o ∈ account.purged

section Steady

variable {account account' : Account} {L L' : Layout env.codec} {s s' : Sys}

section

variable (h : Steady fmt shard account L s)

include h

theorem Steady.nextOffset : s.nextOffset = account.items.length := by
  rw [h.live.nextOffset, ← L.length_items, h.items]

/-- **A steady log reads its account**, over sealed segments and the active WAL alike. -/
theorem Steady.readRange (partition : UInt32) (start max : Nat) :
    readRange env s.disk s.log partition start max = .ok (account.read partition start max) := by
  have hindex := h.live.index.entries.exact (h.live.nextOffset ▸ h.index) h.hidden
  have hwal : s.disk.read .wal = some
      (fileBytes fmt s.shardId (sealedRecords L.sealed).length L.active ++ []) := by
    rw [Disk.read, h.live.wal_eq, append_nil]
    rfl
  rw [readRange_layout h.live.onDisk.format h.live.onDisk.sealedOk h.live.sealedIndexes
    h.live.onDisk.read_segment hwal (hindex.trans (append_nil _).symm) (.inl rfl),
    Account.read, ← h.items, visible_congr h.purged]
  rfl

theorem Steady.moved (hstep : OpStep fmt false L s L' s')
    (hadvances : Advances s s') (hindex : IndexBelow s'.log) (hitems : L'.items = account'.items)
    (hpurged : ∀ o, o ∈ s'.purgedOffsets ↔ o ∈ account'.purged) :
    Steady fmt shard account' L' s' where
  live := hstep.live
  shard := hstep.manifest ▸ h.shard
  items := hitems
  index := hindex
  hidden := hadvances.hidden h.below h.hidden
  below := hadvances.below h.below
  purged := hpurged

/-- **An append that goes through keeps to the account.** -/
theorem Steady.appended {α : Type} {items : List Item}
    {fence : Option Nat} {E : List Item → LogError → Prop} {P : Nat → Bytes → α → Prop}
    {r : Except LogError α × Sys} {post : α → Prop} (hr : Appended fmt false L s items r post)
    (hrun : AppendRun env fence items E P s r) (hok : r.1.toBool = true) :
    ∃ L' : Layout env.codec, Steady fmt shard (account.record items) L' r.2 := by
  obtain ⟨L', hstep, -, hpost⟩ := hr
  rcases hrun.fenced_cases with ⟨gen, -, -, rfl⟩ | ⟨gen, dirty, -, hfenced⟩
  · cases hok
  obtain ⟨a, ha⟩ : ∃ a, r.1 = .ok a := by
    cases hcase : r.1 with
    | error e =>
      rw [hcase] at hok
      cases hok
    | ok a => exact ⟨a, rfl⟩
  refine ⟨L', h.moved hstep hrun.advances (hfenced.below hok h.index) ?_ ?_⟩
  · rw [(hpost a ha).1, h.items, Account.record]
  · rw [hfenced.past.purged]
    exact h.purged

theorem Steady.quiet (hquiet : Quiet s s')
    (hstep : ∃ L', OpStep fmt false L s L' s' ∧ L'.frames = L.frames) :
    ∃ L' : Layout env.codec, Steady fmt shard account L' s' := by
  obtain ⟨L', hstep, hframes⟩ := hstep
  refine ⟨L', h.moved hstep hquiet.toAdvances (hquiet.indexBelow h.index) ?_ ?_⟩
  · rw [Layout.items, hframes, ← Layout.items, h.items]
  · rw [hquiet.purged]
    exact h.purged

end

theorem exists_sealed {first o : Nat} {ss : List (Sealed c)} {gs : List SegmentIndex}
    (hgs : SealedOk fmt shard first ss gs) (hfirst : first ≤ o)
    (hlast : o < first + (sealedRecords ss).length) :
    ∃ g ∈ gs, g.firstOffset ≤ o ∧ o < g.lastOffset := by
  induction ss generalizing first gs with
  | nil =>
    rw [sealedRecords_nil, length_nil] at hlast
    omega
  | cons s ss ih =>
    obtain ⟨name, bs⟩ := s
    cases gs with
    | nil => exact hgs.elim
    | cons g gs =>
      obtain ⟨hg, hrest⟩ := hgs
      rw [sealedRecords_cons, length_append] at hlast
      dsimp only at hlast
      by_cases hhere : o < g.lastOffset
      · exact ⟨g, .head _, hg.firstOffset ▸ hfirst, hhere⟩
      · rw [hg.lastOffset] at hhere
        obtain ⟨g', hg', hcovers⟩ := ih hrest (by omega) (by omega)
        exact ⟨g', .tail _ hg', hcovers⟩

theorem exists_placed {first pos o : Nat} {bs : List (Batch c)} (hfirst : first ≤ o)
    (hlast : o < first + (records bs).length) : ∃ x ∈ placed fmt first pos bs, x.offset = o := by
  have hframes : ∀ {first pos : Nat} {fs : List (Frame c)}, first ≤ o → o < first + fs.length →
      ∃ x ∈ placedFrames first pos fs, x.offset = o := by
    intro first pos fs hfirst hlast
    induction fs generalizing first pos with
    | nil =>
      rw [length_nil] at hlast
      omega
    | cons f fs ih =>
      rw [length_cons] at hlast
      by_cases hhere : o = first
      · exact ⟨_, .head _, hhere.symm⟩
      · obtain ⟨x, hx, hoffset⟩ : ∃ x ∈ placedFrames (first + 1) (pos + f.bytes.length) fs,
            x.offset = o := ih (by omega) (by omega)
        exact ⟨x, .tail _ hx, hoffset⟩
  induction bs generalizing first pos with
  | nil =>
    rw [records_nil, length_nil] at hlast
    omega
  | cons b bs ih =>
    rw [records_cons, length_append] at hlast
    by_cases hhere : o < first + b.frames.length
    · obtain ⟨x, hx, hoffset⟩ := hframes hfirst hhere
      exact ⟨x, mem_append_left _ hx, hoffset⟩
    · obtain ⟨x, hx, hoffset⟩ : ∃ x ∈ placed fmt (first + b.frames.length)
          (pos + batchHead fmt + b.body.length) bs, x.offset = o := ih (by omega) (by omega)
      exact ⟨x, mem_append_right _ hx, hoffset⟩

section

variable (h : Steady fmt shard account L s)

include h

theorem Steady.holds {o : Nat} (ho : o < s.nextOffset)
    (hnew : o ∉ s.purgedOffsets) : s.log.holds o = true := by
  rw [h.live.nextOffset, L.length_frames] at ho
  unfold PartitionLog.holds
  rw [Bool.or_eq_true, List.any_eq_true]
  by_cases hbase : o < L.base
  · right
    obtain ⟨g, hg, hcovers⟩ := exists_sealed h.live.sealedIndexes (Nat.zero_le o) (by
      rw [Nat.zero_add]
      exact hbase)
    exact ⟨g, hg, decide_eq_true hcovers⟩
  · left
    obtain ⟨x, hx, rfl⟩ : ∃ x ∈ placed fmt L.base 0 L.active, x.offset = o :=
      exists_placed (Nat.not_lt.mp hbase) ho
    rw [KeyMap.contains, List.any_eq_true,
      h.live.index.entries.exact (h.live.nextOffset ▸ h.index) h.hidden]
    exact ⟨x.entry .wal, mem_map_of_mem (List.mem_filter.mpr ⟨hx, decide_eq_true hnew⟩),
      decide_eq_true rfl⟩

/-- **A purge keeps to the account**: whatever offset below the end it names is purged then. -/
theorem Steady.purge (offset : Nat) :
    ∃ L' : Layout env.codec, Steady fmt shard (account.apply env (.purge offset)) L'
      (purgeOffset offset s).2 := by
  obtain ⟨L', hstep, hframes⟩ := purgeOffset_step h.live offset
  have hadvances : Advances s (purgeOffset offset s).2 := purgeOffset_advances offset s
  have hitems : L'.items = (account.apply env (.purge offset)).items := by
    rw [Layout.items, hframes, ← Layout.items, h.items, Account.apply]
    split <;> rfl
  by_cases hskip : offset ∈ s.purgedOffsets ∨ s.nextOffset ≤ offset
  · -- purged before, or past the end: nothing changes
    have hsame : (purgeOffset offset s).2 = s := by rw [purgeOffset_eq, if_pos hskip]
    refine ⟨L', h.moved hstep hadvances (hsame.symm ▸ h.index) hitems fun o => ?_⟩
    rw [hsame, h.purged, Account.apply]
    split
    · next hlt =>
      have hold : offset ∈ account.purged := by
        rw [← h.purged]
        exact hskip.resolve_right (Nat.not_le.mpr (h.nextOffset ▸ hlt))
      refine ⟨.tail _, fun ho => ?_⟩
      rcases mem_cons.mp ho with rfl | hmem
      · exact hold
      · exact hmem
    · exact Iff.rfl
  · obtain ⟨hnew, hlt⟩ := not_or.mp hskip
    have hlt' := Nat.not_le.mp hlt
    have htomb : ∃ s₁ : Sys, Quiet s₁ (purgeOffset offset s).2 ∧
        s₁.log = s.log.tombstone offset := by
      rw [purgeOffset_eq, if_neg hskip, if_pos (h.holds hlt' hnew)]
      refine ⟨s.withLog fun log => log.tombstone offset, ?_, rfl⟩
      split
      · exact (flushDurable_quiet _).keeps
      · exact .refl _
    obtain ⟨s₁, hquiet, hs₁⟩ := htomb
    refine ⟨L', h.moved hstep hadvances (hquiet.indexBelow ?_) hitems fun o => ?_⟩
    · rw [hs₁]
      exact fun e he => h.index e (mem_filter.mp he).1
    · rw [hquiet.purged, hs₁, Account.apply, if_pos (h.nextOffset ▸ hlt')]
      show o ∈ offset :: s.purgedOffsets ↔ o ∈ offset :: account.purged
      rw [mem_cons, mem_cons, h.purged]

/-- The call neither appends nor purges. -/
def LogOp.maintains : LogOp → Bool
  | .sync | .flushIfDue _ | .injectFsyncFailure | .gc _ => true
  | .append .. | .appendBatch .. | .appendRaw .. | .purge _ => false

theorem Steady.maintained (hop : op.maintains = true) (hok : OpOk env s.log op) :
    ∃ L' : Layout env.codec, Steady fmt shard account L' (op.run env s) := by
  cases op with
  | sync => exact h.quiet (flushDurable_quiet s).keeps (flushDurable_step h.live)
  | flushIfDue due => exact h.quiet (flushIfDue_quiet due s).keeps (flushIfDue_step h.live due)
  | injectFsyncFailure =>
    exact h.quiet (injectFsyncFailure_quiet s).keeps ⟨L, injectFsyncFailure_step h.live, rfl⟩
  | gc watermark =>
    exact h.quiet (gcSealedBelow_quiet watermark s).keeps
      ⟨L, gcSealedBelow_step h.live watermark hok, rfl⟩
  | _ => cases hop

end

/-- **Every call that goes through keeps to the account.** -/
theorem Steady.call (henv : env.InPlace) (h : Steady fmt shard account L s) (op : LogOp)
    (hok : OpOk env s.log op) (hsuccess : op.succeeds env s = true) :
    ∃ L' : Layout env.codec, Steady fmt shard (account.apply env op) L' (op.run env s) := by
  have hv1 : fmt = .v1 → isV2 s.manifest = false := by
    rintro rfl
    rw [h.live.isV2_eq]
    rfl
  cases op with
  | append partition header payload fence =>
    obtain ⟨hbound, hpayload⟩ := hok
    rw [h.live.nextOffset] at hbound
    exact h.appended (appendFenced_step henv h.live partition header payload fence
      (fun hfmt => hpayload (hv1 hfmt)) hbound).appended (appendFenced_run env _ _ _ _ s) hsuccess
  | appendBatch partition items fence =>
    obtain ⟨hbound, hpayload⟩ := hok
    rw [h.live.nextOffset] at hbound
    by_cases hne : items = []
    · subst hne
      exact ⟨L, { h with items := by rw [h.items, Account.apply, Account.record, append_nil] }⟩
    · exact h.appended (appendBatch_step henv h.live partition items fence
        (fun hfmt => hpayload (hv1 hfmt)) hbound) (appendBatch_run env partition hne _ s) hsuccess
  | appendRaw partition frame expected =>
    obtain ⟨hbound, hframe⟩ := hok
    rw [h.live.nextOffset] at hbound
    rcases appendRawFrame_cases env partition frame expected s with
      ⟨e, hrun⟩ | ⟨stored, others, hrun, rfl, hlt, -⟩ | ⟨item, rest, hdecode, hwant, hrun⟩
    · rw [LogOp.succeeds, hrun] at hsuccess
      cases hsuccess
    · refine ⟨L, ?_⟩
      rw [Account.apply, if_pos (h.nextOffset ▸ hlt)]
      show Steady fmt shard account L (appendRawFrame env partition frame _ s).2
      rw [hrun]
      exact h
    · have hitems : rawItems env frame = [item] := by rw [rawItems, hdecode]
      rw [hdecode] at hframe
      have hok : (appendReceived env partition item frame s).1.toBool = true := hrun ▸ hsuccess
      obtain ⟨L', hsteady⟩ := h.appended (appendReceived_step henv h.live partition hdecode
        (fun hfmt => hframe (hv1 hfmt)) hbound).appended
        (appendReceived_run env partition item frame s) hok
      rw [← hrun] at hsteady
      refine ⟨L', ?_⟩
      cases expected with
      | none =>
        rw [Account.apply, hitems]
        exact hsteady
      | some want =>
        -- an append that was not a retry named the next offset
        rw [Account.apply, if_neg (by rw [hwant want rfl, h.nextOffset]; exact Nat.lt_irrefl _),
          hitems]
        exact hsteady
  | purge offset => exact h.purge offset
  | sync | flushIfDue | injectFsyncFailure | gc => exact h.maintained rfl hok

end Steady

/-! ## Directories at rest -/

/-- A closed directory that holds the records and the tombstones of the account. -/
structure AtRest {c : Codec} (fmt : WalFormat) (shard : UInt32) (account : Account) (L : Layout c)
    (m : WalManifest) (mt : LogMeta) (d : Disk) : Prop where
  onDisk : OnDisk fmt m false L [] d
  shard : m.shardId = shard
  logMeta : d.savedMeta = some mt
  rollCount : mt.segmentRollCount = L.sealed.length
  items : L.items = account.items
  below : ∀ o ∈ mt.purgedOffsets, o < L.frames.length
  purged : ∀ o, o ∈ mt.purgedOffsets ↔ o ∈ account.purged

section AtRest

variable {account : Account} {L : Layout env.codec} {m : WalManifest} {mt : LogMeta} {d : Disk}

/-- Opening a directory that holds the records of the account gives a steady log. -/
theorem OnDisk.opened {tail : Bytes} (h : OnDisk fmt m false L tail d) (hshard : m.shardId = shard)
    (hmeta : d.savedMeta = some mt) (hroll : mt.segmentRollCount = L.sealed.length)
    (hitems : L.items = account.items) (hbelow : ∀ o ∈ mt.purgedOffsets, o < L.frames.length)
    (hpurges : ∀ o, o ∈ mt.purgedOffsets ↔ o ∈ account.purged) (config : PartitionLogConfig)
    (requested : UInt16) (now : Nat) (trace : List Disk) (hfew : d.Few) :
    ∃ log st, openForShard env config shard requested now ⟨d, trace⟩ = (.ok log, st) ∧
      Steady fmt shard account (L.recovered tail) (st.disk.sys log) := by
  obtain ⟨log, hopen, hopened⟩ := openForShard_onDisk env config requested now trace h
    (by rw [← h.segments_length]; exact hfew) hmeta
  have hpurged : log.purgedOffsets = mt.purgedOffsets := by rw [hopened.logMeta]
  have hnext : log.nextOffset = L.frames.length := by rw [hopened.logMeta]
  rw [hshard] at hopen
  refine ⟨log, _, hopen, hopened.live h hroll nofun [], ?_, ?_, ?_, ?_, ?_, ?_⟩
  · rw [hopened.manifest, hshard]
  · rw [Layout.items, recovered_frames]
    exact hitems
  · intro e he
    obtain ⟨x, hx, -, rfl⟩ := mem_scannedIndex (hopened.index ▸ he)
    exact hnext ▸ placed_offset_lt x hx
  · intro e he
    obtain ⟨x, -, hshown, rfl⟩ := mem_scannedIndex (hopened.index ▸ he)
    exact hpurged ▸ hshown
  · show ∀ o ∈ log.purgedOffsets, o < log.nextOffset
    rw [hpurged, hnext]
    exact hbelow
  · rw [hpurged]
    exact hpurges

theorem AtRest.opened (h : AtRest fmt shard account L m mt d) (config : PartitionLogConfig)
    (requested : UInt16) (now : Nat) (trace : List Disk) (hfew : d.Few) :
    ∃ log st, openForShard env config shard requested now ⟨d, trace⟩ = (.ok log, st) ∧
      Steady fmt shard account L (st.disk.sys log) :=
  h.onDisk.opened h.shard h.logMeta h.rollCount h.items h.below h.purged config requested now trace
    hfew

theorem Steady.closed (h : Steady fmt shard account L s) :
    ∃ (L' : Layout env.codec) (m : WalManifest) (mt : LogMeta),
      AtRest fmt shard account L' m mt (dropLog s).2.disk := by
  obtain ⟨L', hsteady⟩ := h.quiet (flushDurable_quiet s).keeps (flushDurable_step h.live)
  refine ⟨L', _, (flushDurable s).2.logMeta, hsteady.live.saveMeta_step.live.onDisk,
    hsteady.shard, rfl, hsteady.live.rollCount, hsteady.items, ?_, hsteady.purged⟩
  rw [← hsteady.live.nextOffset]
  exact hsteady.below

end AtRest

/-! ## Runs -/

/-- An open log is steady; a closed directory is at rest, or untouched. -/
def Audited.Ok (env : Env) (shard : UInt32) (a : Audited) : Prop :=
  match a.log with
  | some log => ∃ (fmt : WalFormat) (L : Layout env.codec),
      Steady fmt shard a.account L (a.disk.sys log)
  | none => (a.disk = .fresh ∧ a.account = .empty) ∨
      ∃ (fmt : WalFormat) (L : Layout env.codec) (m : WalManifest) (mt : LogMeta),
        AtRest fmt shard a.account L m mt a.disk

/-- The first open of a directory, in a known format. -/
theorem openForShard_steady (env : Env) (config : PartitionLogConfig) (shard : UInt32)
    (fmt : WalFormat) (now : Nat) :
    ∃ log st, openForShard env config shard fmt.version now ⟨.fresh, []⟩ = (.ok log, st) ∧
      Steady fmt shard .empty (.empty : Layout env.codec) (st.disk.sys log) := by
  have hrest : AtRest fmt shard .empty .empty _ .empty (.created fmt shard) :=
    ⟨onDisk_created env.codec false fmt shard, rfl, rfl, rfl, rfl, nofun, fun _ => Iff.rfl⟩
  rw [openForShard_fresh]
  exact hrest.opened config fmt.version now _ (Nat.zero_le _)

/-- **Every action keeps the log to its account.** -/
theorem Audited.step_ok (henv : env.InPlace) {a a' : Audited} {action : Action} (h : a.Ok env shard)
    (hok : a.ActionOk env action) (hstep : a.step env shard action = some a') :
    a'.Ok env shard := by
  unfold Audited.Ok at h
  cases action with
  | openLog config requested now =>
    simp only [Audited.step] at hstep
    cases hlog : a.log with
    | some log =>
      rw [hlog] at hstep
      cases hstep
    | none =>
      simp only [hlog] at h hstep
      rcases h with ⟨hdisk, haccount⟩ | ⟨fmt, L, m, mt, hrest⟩
      · rw [hdisk] at hstep
        rcases openForShard_first env config shard requested now with ⟨e, hrefused⟩ | ⟨fmt, rfl⟩
        · rw [hrefused] at hstep
          cases hstep
        · obtain ⟨log, st, hopen, hsteady⟩ := openForShard_steady env config shard fmt now
          rw [hopen] at hstep
          cases hstep
          exact ⟨fmt, .empty, haccount ▸ hsteady⟩
      · obtain ⟨log, st, hopen, hsteady⟩ := hrest.opened config requested now [] hok
        rw [hopen] at hstep
        cases hstep
        exact ⟨fmt, L, hsteady⟩
  | call op =>
    obtain ⟨log, hlog, hcall⟩ := bind_eq_some_iff.mp hstep
    simp only [hlog] at h
    obtain ⟨fmt, L, hsteady⟩ := h
    split at hcall
    · next hsuccess =>
      cases hcall
      obtain ⟨L', hsteady'⟩ := hsteady.call henv op (hok log hlog) hsuccess
      exact ⟨fmt, L', { hsteady' with live := hsteady'.live.retrace [] }⟩
    · cases hcall
  | close =>
    obtain ⟨log, hlog, hclose⟩ := map_eq_some_iff.mp hstep
    simp only [hlog] at h
    obtain ⟨fmt, L, hsteady⟩ := h
    cases hclose
    obtain ⟨L', m, mt, hrest⟩ := hsteady.closed
    exact .inr ⟨fmt, L', m, mt, hrest⟩

/-- **Range reads agree with the history**: after every run of opens, calls and closes that do not
fail, a range read returns the first records from its start on that are not purged. -/
theorem readRange_agrees_with_account (henv : env.InPlace) {actions : List Action} {a : Audited}
    (hrun : Run (Audited.step env shard) (Audited.ActionOk env) .fresh actions a)
    {log : PartitionLog} (hlog : a.log = some log) (partition : UInt32) (start max : Nat) :
    readRange env a.disk log partition start max
      = .ok (a.account.read partition start max) := by
  have hok : a.Ok env shard := Run.invariant (Audited.Ok env shard)
    (fun _ _ _ h hok hstep => Audited.step_ok henv h hok hstep) hrun (.inl ⟨rfl, rfl⟩)
  unfold Audited.Ok at hok
  simp only [hlog] at hok
  obtain ⟨fmt, L, hsteady⟩ := hok
  exact hsteady.readRange partition start max

instance (env : Env) (a : Audited) (action : Action) : Decidable (a.ActionOk env action) := by
  apply @Action.casesOn (fun action => Decidable (a.ActionOk env action)) action <;> intros <;>
    unfold Audited.ActionOk <;> infer_instance

/-- A sealed record is purged, the log is closed and opened, and two records follow. -/
def purgeAndReopen : List Action :=
  [.openLog (rolling .always) 2 0, .call (appendPlain 1), .call (.purge 0), .close,
    .openLog (unrolled .group) 2 1,
    .call (.appendBatch 0 [(plainRecord 2, [2]), (plainRecord 3, [3])] none)]

theorem reads_after_purge_and_reopen :
    ∃ a log, Run (Audited.step localEnv 0) (Audited.ActionOk localEnv) .fresh purgeAndReopen a ∧
      a.log = some log ∧ a.account.items.length = 3 ∧ a.account.purged = [0] ∧
      ∀ partition start max, readRange localEnv a.disk log partition start max
        = .ok (a.account.read partition start max) := by
  exact Exists.imp (fun a => Exists.imp fun log => and_imp_of fun hrun => and_imp_of fun hlog =>
    and_imp_of fun _ => and_of fun _ =>
      readRange_agrees_with_account localEnv_inPlace hrun hlog) (by decide +kernel)

/-! ## Single appends -/

theorem afterWrite_group (hmode : s.config.fsync = .group) :
    afterWrite s = (.ok (), s.withLog fun log => { log with dirty := true }) := by
  rw [afterWrite_eq, if_neg (by rw [hmode]; decide)]

theorem rollIfFull_fits (hroom : s.walSize < s.config.segmentMaxBytes) :
    rollIfFull env s = (.ok (), s) := by
  unfold rollIfFull
  rw [getLog_bind, if_neg (Nat.not_le.mpr hroom)]
  rfl

/-- A V1 append in `Group` mode that does not fill the WAL writes its frame and nothing else. -/
theorem appendFenced_v1_group {frame : Bytes} (partition : UInt32) (item : Item)
    (hv1 : isV2 s.manifest = false) (hmode : s.config.fsync = .group)
    (hframe : encodeFrame env.codec item.1 item.2 = .ok frame)
    (hroom : s.walSize + frame.length < s.config.segmentMaxBytes) :
    ∃ s', appendFenced env partition item.1 item.2 none s
        = (.ok (storedMessage item.1 item.2 partition s.nextOffset, frame), s') ∧
      s'.disk = s.disk.writeWal frame ∧
      s'.log = { s.log with
        index := s.index.insert s.nextOffset ⟨.wal, s.walSize⟩
        walSize := s.walSize + frame.length
        nextOffset := s.nextOffset + 1
        dirty := true } := by
  let written : Sys := (s.put (s.disk.writeWal frame)).withLog fun log =>
    { log with
      index := log.index.insert s.nextOffset ⟨.wal, s.walSize⟩
      walSize := log.walSize + frame.length
      nextOffset := s.nextOffset + 1 }
  have happend : appendFrame env partition item frame s
      = (.ok (storedMessage item.1 item.2 partition s.nextOffset),
        written.withLog fun log => { log with dirty := true }) := by
    have hwritten : afterWrite written
        = (.ok (), written.withLog fun log => { log with dirty := true }) := afterWrite_group hmode
    have hstays : rollIfFull env (written.withLog fun log => { log with dirty := true })
        = (.ok (), written.withLog fun log => { log with dirty := true }) := rollIfFull_fits hroom
    exact (bind_ok hwritten).trans (bind_ok hstays)
  refine ⟨written.withLog fun log => { log with dirty := true }, ?_, rfl, rfl⟩
  unfold appendFenced
  rw [bind_ok (show applyFence none s = (.ok (), s) from rfl), getLog_bind, hv1, hframe]
  exact (bind_ok rfl).trans (bind_ok happend)

/-! ## Payloads of four gibibytes -/

/-- The length field of such a payload reads zero, and its first bytes are taken for a checksum. -/
theorem decodeFrame_wrapped (c : Codec) {headerBytes rest : Bytes}
    (hlen : (0 :: 0 :: 0 :: 0 :: rest).length % 2 ^ 32 = 0)
    (hheader : headerBytes.length ≤ maxFrameHeaderBytes)
    (hcrc : (c.crc32 (frameBody headerBytes [])).toNat ≠ 0) :
    ∃ left, decodeFrame c (frameOf c headerBytes (0 :: 0 :: 0 :: 0 :: rest))
      = (.error .checksumMismatch, left) := by
  set payload : Bytes := 0 :: 0 :: 0 :: 0 :: rest with hpayload
  set left := rest ++ beBytes 4 (c.crc32 (frameBody headerBytes payload)).toNat
  have hsplit : frameOf c headerBytes payload = recordMagic ++ (beBytes 4 headerBytes.length ++
      (beBytes 4 payload.length ++ (headerBytes ++ ([] ++ (beBytes 4 0 ++ left))))) := by
    simp only [frameOf, frameBody, append_assoc, nil_append, hpayload]
    rfl
  have hsmall : headerBytes.length % 256 ^ 4 = headerBytes.length :=
    Nat.mod_eq_of_lt (lt_of_le_of_lt hheader (by decide))
  have hzero : payload.length % 256 ^ 4 = 0 := hlen
  have hexact : ∀ n (bs rest : Bytes), bs.length = n →
      (Reader.readExact n : Reader RecordError Bytes) (bs ++ rest) = (.ok bs, rest) :=
    fun _ _ rest h => (Reader.Exact.readExact h).ok rest
  have hfield : ∀ n rest, (Reader.readBe 4 : Reader RecordError Nat) (beBytes 4 n ++ rest)
        = (.ok (n % 256 ^ 4), rest) :=
    fun n rest => (Reader.Exact.readBe 4 n).ok rest
  have hcheck : ∀ {p : Prop} [Decidable p] (e : RecordError) rest, p →
      Prog.check p e rest = (.ok (), rest) := fun e rest h => (Reader.Exact.check h e).ok rest
  refine ⟨left, ?_⟩
  rw [hsplit]
  unfold decodeFrame
  rw [bind_ok (hexact 4 recordMagic _ rfl), bind_ok (hcheck _ _ rfl),
    bind_ok (hfield _ _), bind_ok (hfield _ _), hsmall, hzero,
    bind_ok (hcheck _ _ ⟨hheader, Nat.zero_le _⟩), bind_ok (hexact _ headerBytes _ rfl),
    bind_ok (hexact 0 [] _ rfl), bind_ok (hfield _ _)]
  refine bind_error ?_
  rw [Prog.check, Nat.zero_mod, if_neg hcrc]
  rfl

/-- The program with `BETTERMQ_MAX_HTTP_BODY_BYTES` at four gibibytes. -/
def largePayloads : Env :=
  { linkedEnv false with codec := { Bincode.codec with maxFramePayloadBytes := 2 ^ 32 } }

/-- A V1 log that rolls at a tebibyte, as its first open leaves it. -/
def openedLarge : Sys :=
  let manifest : WalManifest := ⟨1, 1, 1, 0⟩
  ⟨⟨⟨.valid manifest, .valid .empty, some .empty, []⟩, []⟩,
    .initial ⟨2 ^ 40, .group⟩ .empty manifest⟩

theorem open_large :
    Audited.step largePayloads 0 .fresh (.openLog ⟨2 ^ 40, .group⟩ 1 0)
      = some ⟨openedLarge.disk, some openedLarge.log, .empty⟩ := rfl

/-- A payload of four gibibytes that starts with four zero bytes is appended and cannot be read. -/
theorem large_payload_unreadable {rest : Bytes}
    (hlen : (0 :: 0 :: 0 :: 0 :: rest).length = 2 ^ 32) :
    ∃ a log, AnyRun (Audited.step largePayloads 0) .fresh [.openLog ⟨2 ^ 40, .group⟩ 1 0,
          .call (.append 0 (plainRecord 1) (0 :: 0 :: 0 :: 0 :: rest) none)] a ∧
      a.log = some log ∧ a.account = ⟨[(plainRecord 1, 0 :: 0 :: 0 :: 0 :: rest)], []⟩ ∧
      readRange largePayloads a.disk log 0 0 1 = .error (.record .checksumMismatch) := by
  generalize hpayload : (0 :: 0 :: 0 :: 0 :: rest : Bytes) = payload at hlen ⊢
  -- the header is small, and its checksum is not the four zero bytes it is compared with
  obtain ⟨headerBytes, henc, hsize, hcrc⟩ : ∃ headerBytes,
      largePayloads.codec.encode (plainRecord 1) = .ok headerBytes ∧ headerBytes.length < 1000 ∧
        (largePayloads.codec.crc32 (frameBody headerBytes [])).toNat ≠ 0 := by
    have hcheck : ((largePayloads.codec.encode (plainRecord 1)).toOption.any fun headerBytes =>
        decide (headerBytes.length < 1000 ∧
          (largePayloads.codec.crc32 (frameBody headerBytes [])).toNat ≠ 0)) = true := by
      decide +kernel
    obtain ⟨headerBytes, henc, hfacts⟩ := (any_eq_true _ _).mp hcheck
    exact ⟨headerBytes, toOption_eq_some.mp henc, of_decide_eq_true hfacts⟩
  have hheader : headerBytes.length ≤ maxFrameHeaderBytes :=
    hsize.le.trans (by decide)
  have hencode : encodeFrame largePayloads.codec (plainRecord 1) payload
      = .ok (frameOf largePayloads.codec headerBytes payload) := by
    unfold encodeFrame
    rw [henc]
    exact if_neg (not_or.mpr ⟨hheader.not_gt, hlen.le.not_gt⟩)
  have hframe : (frameOf largePayloads.codec headerBytes payload).length < 2 ^ 40 := by
    simp only [frameOf, frameBody, length_append, length_beBytes, recordMagic, hlen]
    norm_num
    omega
  have hroom : openedLarge.walSize + (frameOf largePayloads.codec headerBytes payload).length
      < openedLarge.config.segmentMaxBytes := lt_of_eq_of_lt (Nat.zero_add _) hframe
  obtain ⟨s, hfenced, hdisk, hlog⟩ := appendFenced_v1_group 0 (plainRecord 1, payload) rfl rfl
    hencode hroom
  have hwal : s.disk.read .wal = some (frameOf largePayloads.codec headerBytes payload) := by
    rw [hdisk]
    rfl
  have hindex : s.index = [(0, ⟨.wal, 0⟩)] := by
    rw [hlog]
    rfl
  have hsealed : s.sealedIndexes = [] := by
    rw [hlog]
    rfl
  refine ⟨⟨s.disk, some s.log, ⟨[(plainRecord 1, payload)], []⟩⟩, s.log, ?_, rfl, rfl, ?_⟩
  · have hsuccess : (LogOp.append 0 (plainRecord 1) payload none).succeeds largePayloads openedLarge
        = true := congrArg (fun r => r.1.toBool) hfenced
    have hrun : (LogOp.append 0 (plainRecord 1) payload none).run largePayloads openedLarge = s :=
      congrArg Prod.snd hfenced
    refine .cons trivial open_large (.cons trivial ?_ (.nil _))
    exact (Audited.step_call hsuccess .empty rfl).trans (by rw [hrun]; rfl)
  · obtain ⟨left, hdecode⟩ : ∃ left, decodeFrame largePayloads.codec
        (frameOf largePayloads.codec headerBytes payload) = (.error .checksumMismatch, left) := by
      rw [← hpayload]
      exact decodeFrame_wrapped _ (by rw [hpayload, hlen]; rfl) hheader hcrc
    have hread : readAt largePayloads.codec s.disk ⟨.wal, 0⟩
        = .error (.record .checksumMismatch) := by
      unfold readAt
      rw [hwal]
      dsimp only
      rw [drop_zero, hdecode]
      rfl
    unfold readRange
    rw [hsealed, hindex]
    show (readAt largePayloads.codec s.disk ⟨.wal, 0⟩ >>= _) = _
    rw [hread]
    rfl

/-- **A successful append that no range read returns**, in the V1 format. -/
theorem large_append_is_unreadable :
    ∃ a log, AnyRun (Audited.step largePayloads 0) .fresh [.openLog ⟨2 ^ 40, .group⟩ 1 0,
          .call (.append 0 (plainRecord 1) (List.replicate (2 ^ 32) 0) none)] a ∧
      a.log = some log ∧ a.account.read 0 0 1 ≠ [] ∧
      readRange largePayloads a.disk log 0 0 1 = .error (.record .checksumMismatch) := by
  have hlen := length_replicate (n := 2 ^ 32) (a := (0 : UInt8))
  obtain ⟨a, log, hrun, hlog, haccount, hread⟩ := large_payload_unreadable hlen
  refine ⟨a, log, hrun, hlog, ?_, hread⟩
  rw [haccount]
  exact cons_ne_nil _ _

end BetterMQ
