import BetterMQ.Storage.Collect
import BetterMQ.Storage.History

/-!
# Batch appends that fail

`append_batch` enters the records of a batch into the index while it encodes them, before a byte of
them is written. When a later item does not encode, or the write stops, the entries stay: a range
read that reaches the next offset then fails, or serves a record that was never appended.

* **`Audited.attempt_ok`** — a call that fails before its first entry leaves a steady log;
* **`failed_batch_clean_iff`** — no other failure of a batch goes unnoticed.
-/

namespace BetterMQ

open List Option Prog

variable {env : Env} {shard : UInt32} {fmt : WalFormat} {c : Codec} {item : Item} {a : Audited}
  {s : Sys}

/-! ## Writes that stop -/

/-- `write_all` and the accounting after it. A write that stops leaves the bytes it got through in
the file. -/
def writeAll (stop : Option Nat) (bytes : Bytes) (count : Nat) : LogM Unit :=
  match stop with
  | none => writeRecords bytes count
  | some written => do
    modifyDisk fun d => d.writeWal (bytes.take written)
    Prog.fail (.io (.other "write stopped"))

/-- `append_batch` on a WAL whose `write_all` may stop. -/
def appendBatchStopping (env : Env) (partition : UInt32) (items : List Item)
    (fenceGeneration : Option Nat) (stop : Option Nat) : LogM (List (StoredMessage × Bytes)) :=
  appendBatchBy (writeAll stop) env partition items fenceGeneration

/-- The item encodes. -/
def Encodes (c : Codec) (item : Item) : Bool := (encodeFrame c item.1 item.2).toBool

/-- The batch is fenced off, or its first item does not encode. -/
def FailsEarly (env : Env) (log : PartitionLog) (items : List Item) (fence : Option Nat) : Prop :=
  (∃ gen ∈ fence, gen < log.leaderGeneration) ∨
    ∃ item ∈ items.head?, Encodes env.codec item = false

/-! ## The machine with failures -/

/-- The call fails before it enters a record into the index. -/
def LogOp.FailsEarly (env : Env) (log : PartitionLog) : LogOp → Prop
  | .append _ header payload fence => BetterMQ.FailsEarly env log [(header, payload)] fence
  | .appendBatch _ items fence => BetterMQ.FailsEarly env log items fence
  | .appendRaw _ frame expected =>
    (decodeFrame env.codec frame).1.toBool = false ∨
      ∃ want ∈ expected, want ≠ log.nextOffset
  | .purge _ => False
  | op => OpOk env log op

/-- One step in the life of a log on which calls may fail. -/
inductive FallibleAction where
  /-- An action that goes through. -/
  | run (action : Action)
  | fail (op : LogOp)
  /-- A batch append whose write stops. -/
  | stopped (partition : UInt32) (items : List Item) (fence : Option Nat) (written : Nat)

namespace Audited

/-- A failed call that left `s` behind: nothing is entered into the account. -/
def failed (a : Audited) (s : Sys) : Audited := ⟨s.disk, some s.log, a.account⟩

def attempt (env : Env) (shard : UInt32) (a : Audited) : FallibleAction → Option Audited
  | .run action => a.step env shard action
  | .fail op => a.log.bind fun log =>
    let s : Sys := (a.disk.sys log)
    if op.succeeds env s then none else some (a.failed (op.run env s))
  | .stopped partition items fence written => a.log.bind fun log =>
    let r := appendBatchStopping env partition items fence (some written) (a.disk.sys log)
    if r.1.toBool then none else some (a.failed r.2)

/-- What goes through keeps to `ActionOk`; what fails, fails early. -/
def AttemptOk (env : Env) (a : Audited) : FallibleAction → Prop
  | .run action => a.ActionOk env action
  | .fail op => ∀ log, a.log = some log → op.FailsEarly env log
  | .stopped _ items fence _ => ∀ log, a.log = some log → FailsEarly env log items fence

/-- What callers may rely on in one state. -/
structure Faithful (env : Env) (shard : UInt32) (a : Audited) : Prop where
  reads : ∀ log, a.log = some log → ∀ (partition : UInt32) (start max : Nat),
    readRange env a.disk log partition start max = .ok (a.account.read partition start max)
  appends : ∀ log, a.log = some log → ∀ (partition : UInt32) (items : List Item)
    (fence : Option Nat) (out : List (StoredMessage × Bytes)), items ≠ [] →
      (appendBatch env partition items fence (a.disk.sys log)).1 = .ok out →
      out.map Prod.fst = messagesFrom partition a.account.items.length items
  append : ∀ log, a.log = some log → ∀ (partition : UInt32) (header : LogRecord) (payload : Bytes)
    (fence : Option Nat) (out : StoredMessage × Bytes),
      (appendFenced env partition header payload fence (a.disk.sys log)).1 = .ok out →
      out.1.offset = a.account.items.length
  reopens : a.log = none → a.disk.manifest ≠ .missing → a.disk.Few →
    ∀ (config : PartitionLogConfig) (requested : UInt16) (now : Nat),
      (a.step env shard (.openLog config requested now)).isSome = true

end Audited

/-- A call that failed in the state `a`, with the log `log` open, and left `s` went unnoticed: reads
and the high watermark are as before, and so is everything later. -/
structure FailedCleanly (env : Env) (shard : UInt32) (a : Audited) (log : PartitionLog) (s : Sys) :
    Prop where
  highWatermark : s.log.highWatermark = log.highWatermark
  reads : ∀ (partition : UInt32) (start max : Nat),
    readRange env s.disk s.log partition start max = readRange env a.disk log partition start max
  later : ∀ (actions : List Action) (a' : Audited),
    Run (Audited.step env shard) (Audited.ActionOk env) (a.failed s) actions a' →
      a'.Faithful env shard

/-! ## Failures that come early -/

section Early

variable {account : Account} {L : Layout env.codec} {s : Sys} {items : List Item}
  {fence : Option Nat}

theorem Steady.fenced (h : Steady fmt shard account L s) (gen : Nat) (dirty : Bool) :
    Steady fmt shard account L (s.fenced gen dirty) where
  live := (h.live.fenced_step gen dirty).live
  __ := h

theorem encodeFrame_of_not_encodes (h : Encodes c item = false) :
    ∃ e, encodeFrame c item.1 item.2 = .error e := by
  unfold Encodes at h
  cases hframe : encodeFrame c item.1 item.2 with
  | error e => exact ⟨e, rfl⟩
  | ok frame =>
    rw [hframe] at h
    cases h

/-- A batch that fails early changes at most the fence. -/
theorem appendBatchStopping_early (hearly : FailsEarly env s.log items fence) (hne : items ≠ [])
    (partition : UInt32) (stop : Option Nat) :
    ∃ e gen dirty, appendBatchStopping env partition items fence stop s
      = (.error e, s.fenced gen dirty) := by
  unfold appendBatchStopping appendBatchBy
  rw [if_neg hne]
  rcases applyFence_cases fence s with ⟨gen, -, -, hfence⟩ | ⟨gen, dirty, haccepted, hfence⟩
  · exact ⟨_, s.leaderGeneration, s.dirty, bind_error hfence⟩
  rw [bind_ok hfence, getLog_bind]
  rcases hearly with ⟨old, hold, hstale⟩ | ⟨item, hitem, hencode⟩
  · exact absurd haccepted.le (Nat.not_le.mpr (haccepted.gens old hold ▸ hstale))
  · obtain ⟨rest, rfl⟩ := head?_eq_some_iff.mp hitem
    obtain ⟨e, he⟩ := encodeFrame_of_not_encodes hencode
    refine ⟨.record e, gen, dirty, bind_error ?_⟩
    exact bind_error (by rw [he]; rfl)

theorem FrameOk.encodes (h : FrameOk c item) : Encodes c item = true := by
  unfold Encodes
  rw [(encodeFrame_eq_ok_iff c item _).mpr ⟨h, rfl⟩]
  rfl

theorem FailsEarly.not_all {gen : Nat} {dirty : Bool} (h : FailsEarly env s.log items fence)
    (haccepted : Accepted fence s.log gen dirty) : ¬ ∀ item ∈ items, FrameOk env.codec item := by
  intro hall
  rcases h with ⟨old, hold, hstale⟩ | ⟨item, hitem, hencode⟩
  · exact absurd haccepted.le (Nat.not_le.mpr (haccepted.gens old hold ▸ hstale))
  · rw [(hall item (mem_of_mem_head? hitem)).encodes] at hencode
    cases hencode

theorem appendFenced_early {header : LogRecord} {payload : Bytes}
    (hearly : FailsEarly env s.log [(header, payload)] fence) (partition : UInt32) :
    ∃ gen dirty, (appendFenced env partition header payload fence s).2 = s.fenced gen dirty := by
  cases appendFenced_run env partition header payload fence s with
  | stale _ _ hrun => exact ⟨s.leaderGeneration, s.dirty, congrArg Prod.snd hrun⟩
  | @failed gen dirty done e haccepted he hrun =>
    rcases he with ⟨item, rest, _, hsplit, -⟩ | ⟨hoks, -⟩
    · obtain rfl : done = [] := by
        cases done with
        | nil => rfl
        | cons _ done => simp at hsplit
      exact ⟨gen, dirty, congrArg Prod.snd hrun⟩
    · exact (hearly.not_all haccepted hoks).elim
  | written haccepted hout hrun => exact (hearly.not_all haccepted hout.1.ok).elim

/-- A replicated frame that does not decode, or is not for the next offset, changes nothing. -/
theorem appendRawFrame_early {frame : Bytes} {expected : Option Nat}
    (hearly : (decodeFrame env.codec frame).1.toBool = false ∨
      ∃ want ∈ expected, want ≠ s.nextOffset) (partition : UInt32) :
    (appendRawFrame env partition frame expected s).2 = s := by
  rcases appendRawFrame_cases env partition frame expected s with
    ⟨e, hrun⟩ | ⟨stored, want, hrun, -⟩ | ⟨item, rest, hdecode, hnext, -⟩
  · rw [hrun]
  · rw [hrun]
  · rcases hearly with hfails | ⟨want, hwant, hother⟩
    · rw [hdecode] at hfails
      cases hfails
    · exact absurd (hnext want hwant) hother

/-- **A call that fails early keeps to the account.** -/
theorem Steady.failedEarly (h : Steady fmt shard account L s) {op : LogOp}
    (hearly : op.FailsEarly env s.log) (hfails : op.succeeds env s = false) :
    ∃ L' : Layout env.codec, Steady fmt shard account L' (op.run env s) := by
  cases op with
  | append partition header payload fence =>
    obtain ⟨gen, dirty, hrun⟩ := appendFenced_early hearly partition
    refine ⟨L, ?_⟩
    show Steady fmt shard account L (appendFenced env partition header payload fence s).2
    rw [hrun]
    exact h.fenced gen dirty
  | appendBatch partition items fence =>
    have hne : items ≠ [] := by
      rintro rfl
      cases hfails
    obtain ⟨e, gen, dirty, hrun⟩ := appendBatchStopping_early hearly hne partition none
    refine ⟨L, ?_⟩
    show Steady fmt shard account L (appendBatchStopping env partition items fence none s).2
    rw [hrun]
    exact h.fenced gen dirty
  | appendRaw partition frame expected =>
    refine ⟨L, ?_⟩
    show Steady fmt shard account L (appendRawFrame env partition frame expected s).2
    rw [appendRawFrame_early hearly]
    exact h
  | purge offset => exact hearly.elim
  | sync | flushIfDue | injectFsyncFailure | gc => exact h.maintained rfl hearly

end Early

/-! ## What a steady log promises -/

theorem Audited.Ok.faithful (h : a.Ok env shard) : a.Faithful env shard := by
  obtain ⟨disk, log, account⟩ := a
  cases log with
  | some log =>
    obtain ⟨fmt, L, hsteady⟩ := h
    refine ⟨?_, ?_, ?_, nofun⟩
    · rintro _ ⟨⟩
      exact hsteady.readRange
    · rintro _ ⟨⟩ partition items fence out hne hout
      rw [← hsteady.nextOffset]
      exact appendBatch_offsets hne hout
    · rintro _ ⟨⟩ partition header payload fence out hout
      rw [← hsteady.nextOffset]
      exact appendFenced_offset hout
  | none =>
    refine ⟨nofun, nofun, nofun, fun _ hmanifest hfew config requested now => ?_⟩
    rcases h with ⟨rfl, -⟩ | ⟨fmt, L, m, mt, hrest⟩
    · exact absurd rfl hmanifest
    · obtain ⟨log, st, hopen, -⟩ : ∃ log st, openForShard env config shard requested now ⟨disk, []⟩
          = (.ok log, st) ∧ Steady fmt shard account L (st.disk.sys log) :=
        hrest.opened config requested now [] hfew
      simp only [Audited.step, hopen, isSome_some]

theorem Steady.failed_ok {L : Layout env.codec} (h : Steady fmt shard a.account L s) :
    (a.failed s).Ok env shard :=
  ⟨fmt, L, { h with live := h.live.retrace [] }⟩

/-- **A failed call that leaves a steady log goes unnoticed.** -/
theorem Steady.failedCleanly (henv : env.InPlace) {account : Account} {L L' : Layout env.codec}
    {disk : Disk} {log : PartitionLog} (h : Steady fmt shard account L (disk.sys log))
    (h' : Steady fmt shard account L' s) :
    FailedCleanly env shard ⟨disk, some log, account⟩ log s where
  highWatermark := h'.nextOffset.trans h.nextOffset.symm
  reads partition start max :=
    (h'.readRange partition start max).trans (h.readRange partition start max).symm
  later actions a' hrun := by
    have hok : Audited.Ok env shard a' := Run.invariant (Audited.Ok env shard)
      (fun _ _ _ h hok hstep => Audited.step_ok henv h hok hstep) hrun h'.failed_ok
    exact hok.faithful

theorem Audited.attempt_ok (henv : env.InPlace) {a' : Audited} {action : FallibleAction}
    (h : a.Ok env shard) (hok : a.AttemptOk env action)
    (hstep : a.attempt env shard action = some a') : a'.Ok env shard := by
  cases action with
  | run action => exact Audited.step_ok henv h hok hstep
  | fail op =>
    obtain ⟨log, hlog, hcall⟩ := bind_eq_some_iff.mp hstep
    unfold Audited.Ok at h
    simp only [hlog] at h
    obtain ⟨fmt, L, hsteady⟩ := h
    dsimp only at hcall
    split at hcall
    · cases hcall
    · next hfails =>
      cases hcall
      obtain ⟨L', hsteady'⟩ := hsteady.failedEarly (hok log hlog) (eq_false_of_ne_true hfails)
      exact hsteady'.failed_ok
  | stopped partition items fence written =>
    obtain ⟨log, hlog, hcall⟩ := bind_eq_some_iff.mp hstep
    unfold Audited.Ok at h
    simp only [hlog] at h
    obtain ⟨fmt, L, hsteady⟩ := h
    dsimp only at hcall
    split at hcall
    · cases hcall
    · next hfails =>
      cases hcall
      have hne : items ≠ [] := by
        rintro rfl
        exact hfails rfl
      have hearly : FailsEarly env ((a.disk.sys log) : Sys).log items fence := hok log hlog
      obtain ⟨e, gen, dirty, hrun⟩ := appendBatchStopping_early hearly hne partition (some written)
      rw [hrun]
      exact (hsteady.fenced gen dirty).failed_ok

/-! ## Failures that come late -/

section Late

variable {account : Account} {L : Layout env.codec} {s s' : Sys} {items : List Item}
  {fence stop : Option Nat}

theorem applyFence_not_stale (h : ¬ ∃ gen ∈ fence, gen < s.leaderGeneration) :
    ∃ gen dirty, applyFence fence s = (.ok (), s.fenced gen dirty) := by
  rcases applyFence_cases fence s with ⟨gen, hgen, hlt, -⟩ | ⟨gen, dirty, -, hfence⟩
  · exact absurd ⟨gen, hgen, hlt⟩ h
  · exact ⟨gen, dirty, hfence⟩

theorem encodeFrame_of_encodes (h : Encodes c item = true) :
    ∃ frame, encodeFrame c item.1 item.2 = .ok frame := by
  unfold Encodes at h
  cases hframe : encodeFrame c item.1 item.2 with
  | error e =>
    rw [hframe] at h
    cases h
  | ok frame => exact ⟨frame, rfl⟩

/-- Once the first item is encoded its entry stays, however far encoding gets. -/
theorem first_mem_indexItems {first : Nat} {index : Index} {done : List Item}
    (hbelow : ∀ e ∈ index, e.1 < first) (hne : done ≠ []) (pos : Nat) :
    (first, ⟨.wal, pos⟩) ∈ indexItems c first pos done index := by
  have hall := indexItems_append (c := c) pos done hbelow (forall_mem_nil _)
  rw [append_nil] at hall
  rw [hall]
  cases done with
  | nil => exact absurd rfl hne
  | cons item done => exact mem_append_right _ (.head _)

/-- A batch that fails late leaves an entry at the next offset. -/
theorem appendBatchStopping_late (hbelow : IndexBelow s.log)
    (hlate : ¬ FailsEarly env s.log items fence) (hne : items ≠ [])
    (hcause : (∃ item ∈ items, Encodes env.codec item = false) ∨ stop ≠ none) (partition : UInt32) :
    ∃ gen dirty index' pos, (s.nextOffset, pos) ∈ index' ∧
      (appendBatchStopping env partition items fence stop s).2.log
        = ((s.fenced gen dirty).withIndex index').log := by
  obtain ⟨hfresh, hhead⟩ := not_or.mp hlate
  obtain ⟨gen, dirty, hfence⟩ := applyFence_not_stale hfresh
  have hentry : ∀ done, done ≠ [] → _ ∈ indexItems env.codec s.nextOffset
      s.log.framePosition done s.index :=
    fun done hdone => first_mem_indexItems hbelow hdone s.log.framePosition
  unfold appendBatchStopping appendBatchBy
  rw [if_neg hne, bind_ok hfence, getLog_bind]
  rcases encodeItems_cases env partition items _ (s.fenced gen dirty).nextOffset
      (s.fenced gen dirty) with
    ⟨done, item, rest, e, hsplit, herror, hrun⟩ | ⟨hoks, hrun⟩
  · refine ⟨gen, dirty, _, _, hentry done ?_, by rw [bind_error hrun]; rfl⟩
    rintro rfl
    exact hhead ⟨item, by rw [hsplit]; rfl, by rw [Encodes, herror]; rfl⟩
  · refine ⟨gen, dirty, _, _, hentry items hne, ?_⟩
    have hstopped : stop ≠ none := by
      refine hcause.resolve_left ?_
      rintro ⟨i, hi, hfails⟩
      rw [(hoks i hi).encodes] at hfails
      cases hfails
    obtain ⟨written, rfl⟩ := ne_none_iff_exists'.mp hstopped
    rw [bind_ok hrun, getLog_bind]
    dsimp only
    have hmanifest : ∀ index, ((s.fenced gen dirty).withIndex index).manifest
      = s.manifest :=
      fun _ => rfl
    rw [hmanifest]
    cases isV2 s.manifest with
    | false => rfl
    | true =>
      cases (encodeEpoch _ _).mapError LogError.epoch with
      | error e => rfl
      | ok bytes => rfl

theorem readRange_leftover (h : Steady fmt shard account L s)
    (hsealed : s'.sealedIndexes = s.sealedIndexes) {pos : LogPosition}
    (hentry : (s.nextOffset, pos) ∈ s'.index) (partition : UInt32) :
    readRange env s'.disk s'.log partition s.nextOffset 1 ≠ .ok [] := by
  have hnone : (s'.sealedIndexes.filter fun g =>
    g.lastOffset > s.nextOffset) = [] := by
    rw [hsealed, filter_eq_nil_iff]
    intro g hg
    have hlast := h.live.sealedIndexes.lastOffset_le g hg
    rw [h.live.nextOffset, L.length_frames]
    unfold Layout.base
    simp only [decide_eq_true_eq]
    omega
  have hrange : (s.nextOffset, pos) ∈ s'.index.range s.nextOffset :=
    mem_filter.mpr ⟨hentry, decide_eq_true le_rfl⟩
  unfold readRange
  rw [hnone]
  show readActive env.codec s'.disk partition 1 (s'.index.range s.nextOffset) [] ≠ _
  cases hentries : s'.index.range s.nextOffset with
  | nil =>
    rw [hentries] at hrange
    cases hrange
  | cons e entries =>
    obtain ⟨offset, pos⟩ := e
    show (readAt env.codec s'.disk pos >>= _) ≠ _
    cases readAt env.codec s'.disk pos with
    | error e => exact nofun
    | ok item =>
      cases entries with
      | nil => exact nofun
      | cons e' entries => exact nofun

end Late

/-! ## The criterion -/

/-- **A failed batch goes unnoticed exactly when it fails early.** Whatever the history of the log,
as long as its own failures came early, a batch that fails because an item does not encode or its
write stops leaves reads, later appends and reopens alone if and only if it was fenced off or its
first item did not encode. -/
theorem failed_batch_clean_iff (henv : env.InPlace) {history : List FallibleAction} {a : Audited}
    (hrun : Run (Audited.attempt env shard) (Audited.AttemptOk env) .fresh history a)
    {log : PartitionLog} (hlog : a.log = some log) {partition : UInt32} {items : List Item}
    {fence stop : Option Nat}
    (hcause : (∃ item ∈ items, Encodes env.codec item = false) ∨ stop ≠ none) {e : LogError}
    {s : Sys} (hfails : appendBatchStopping env partition items fence stop (a.disk.sys log)
      = (.error e, s)) : FailedCleanly env shard a log s ↔ FailsEarly env log items fence := by
  have hok : a.Ok env shard := Run.invariant (Audited.Ok env shard)
    (fun _ _ _ h hok hstep => Audited.attempt_ok henv h hok hstep) hrun (.inl ⟨rfl, rfl⟩)
  obtain ⟨disk, _, account⟩ := a
  cases hlog
  obtain ⟨fmt, L, hsteady⟩ := hok
  have hne : items ≠ [] := by
    rintro rfl
    cases hfails
  constructor
  · intro hclean
    by_contra hlate
    obtain ⟨gen, dirty, index', pos, hentry, hleft⟩ :=
      appendBatchStopping_late hsteady.index hlate hne hcause partition
    rw [hfails] at hleft
    have hleft : s.log
        = ((((disk.sys log) : Sys).fenced gen dirty).withIndex index').log := hleft
    have hshown : readRange env s.disk s.log partition log.nextOffset 1 ≠ .ok [] :=
      readRange_leftover hsteady (by rw [hleft]; rfl) (by rw [hleft]; exact hentry) partition
    -- before the call, nothing was there to read
    refine hshown ((hclean.reads _ _ _).trans ?_)
    have hread := hsteady.readRange partition log.nextOffset 1
    rw [Account.read, visible_messagesFrom_eq_nil
      (by rw [Nat.zero_add]; exact hsteady.nextOffset.ge)]
      at hread
    exact hread
  · intro hearly
    obtain ⟨e', gen, dirty, hearlier⟩ := appendBatchStopping_early (s := (disk.sys log)) hearly
      hne partition stop
    rw [hfails] at hearlier
    cases hearlier
    exact hsteady.failedCleanly henv (hsteady.fenced gen dirty)

/-- The program with `BETTERMQ_MAX_HTTP_BODY_BYTES` at one byte. -/
def smallPayloads : Env :=
  { linkedEnv false with codec := { Bincode.codec with maxFramePayloadBytes := 1 } }

theorem Codec.Lawful.withLimit (h : c.Lawful) (limit : Nat) :
    Codec.Lawful { c with maxFramePayloadBytes := limit } :=
  ⟨h.decode_encode⟩

theorem smallPayloads_lawful : smallPayloads.codec.Lawful := Bincode.codec_lawful.withLimit 1

instance (env : Env) (log : PartitionLog) (items : List Item) (fence : Option Nat) :
    Decidable (FailsEarly env log items fence) := by
  unfold FailsEarly
  infer_instance

instance (env : Env) (log : PartitionLog) (op : LogOp) : Decidable (op.FailsEarly env log) := by
  apply @LogOp.casesOn (fun op => Decidable (op.FailsEarly env log)) op <;> intros <;>
    unfold LogOp.FailsEarly <;> infer_instance

instance (env : Env) (a : Audited) (action : FallibleAction) :
    Decidable (a.AttemptOk env action) := by
  cases action <;> unfold Audited.AttemptOk <;> infer_instance

/-- A record is appended, then a batch fails on its first item. -/
def appendThenFail : List FallibleAction :=
  [.run (.openLog (unrolled .group) 2 0), .run (.call (appendPlain 1)),
    .fail (.appendBatch 0 [(plainRecord 2, [2, 2])] none)]

/-- A further batch whose first payload is over the limit. -/
theorem failed_batch_unnoticed :
    ∃ a log e s, Run (Audited.attempt smallPayloads 0) (Audited.AttemptOk smallPayloads) .fresh
        appendThenFail a ∧ a.log = some log ∧
      appendBatchStopping smallPayloads 0 [(plainRecord 3, [3, 3]), (plainRecord 4, [4])] none none
        (a.disk.sys log) = (.error e, s) ∧
      FailedCleanly smallPayloads 0 a log s := by
  refine Exists.imp (fun a => Exists.imp fun log => Exists.imp fun e => Exists.imp fun s =>
    and_imp_of fun hrun => and_imp_of fun hlog => and_imp_of fun hfails
      (htoobig : Encodes smallPayloads.codec (plainRecord 3, [3, 3]) = false) => ?_)
    (by decide +kernel)
  refine (failed_batch_clean_iff ⟨smallPayloads_lawful, rfl⟩ hrun hlog ?_ hfails).mpr ?_
  · exact .inl ⟨_, .head _, htoobig⟩
  · exact .inr ⟨_, rfl, htoobig⟩

/-- **A batch that fails on its second item breaks reads**: the record before it was entered into
the index, and a read at the next offset runs into the end of the file. -/
theorem failed_batch_breaks_reads :
    ∃ a log e s, Run (Audited.step smallPayloads 0) (Audited.ActionOk smallPayloads) .fresh
        [.openLog (unrolled .group) 2 0] a ∧ a.log = some log ∧
      appendBatch smallPayloads 0 [(plainRecord 1, [1]), (plainRecord 2, [2, 2])] none
        (a.disk.sys log) = (.error e, s) ∧
      readRange smallPayloads a.disk log 0 0 1 = .ok [] ∧
      readRange smallPayloads s.disk s.log 0 0 1 = .error (.record (.io .unexpectedEof)) := by
  decide +kernel

end BetterMQ
