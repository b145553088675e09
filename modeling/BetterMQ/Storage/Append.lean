import BetterMQ.Storage.Live

/-!
# The append paths keep the log live

* **`AppendRun`** — what an append does: its fence refuses it, or it fails with at most the fence
  and the index changed, or it writes its frames;
* **`appendBatch_run`**, **`appendFenced_run`**, **`appendReceived_run`** — every append is one;
* **`appendBatch_step`**, **`appendFenced_step`**, **`appendRawFrame_step`** — each append either
  leaves the records as they were or adds all of its items at the end; when it returns `Ok`, it
  added them, and the messages it returns carry the offsets they were given.
-/

namespace BetterMQ

open List Prog

variable {c : Codec} {fmt : WalFormat} {strict : Bool}

/-! ## Encoding the items of a batch -/

/-- The index entries of items written from offset `first` and position `pos` on. -/
def itemEntries (c : Codec) : Nat → Nat → List Item → Index
  | _, _, [] => []
  | first, pos, item :: items =>
    (first, ⟨.wal, pos⟩) :: itemEntries c (first + 1) (pos + (frameBytes c item).length) items

/-- The index once those entries are inserted, one by one. -/
def indexItems (c : Codec) : Nat → Nat → List Item → Index → Index
  | _, _, [], index => index
  | first, pos, item :: items, index =>
    indexItems c (first + 1) (pos + (frameBytes c item).length) items
      (index.insert first ⟨.wal, pos⟩)

variable {items : List Item} {env : Env} {L : Layout c} {s : Sys} {α : Type} {fs : List (Frame c)}
  {e : Nat × LogPosition} {first leaderEpoch pos gen : Nat} {fence : Option Nat}
  {bytes frame : Bytes} {post : α → Prop} {item : Item}

theorem mem_indexItems {index : Index} (he : e ∈ indexItems c first pos items index) :
    e ∈ index ∨ (e.2.path = .wal ∧ first ≤ e.1 ∧ e.1 < first + items.length) := by
  induction items generalizing first pos index with
  | nil => exact .inl he
  | cons item items ih =>
    rw [length_cons]
    rcases ih he with hinserted | ⟨hwal, hge, hlt⟩
    · rcases KeyMap.mem_insert hinserted with rfl | hold
      · exact .inr ⟨rfl, le_rfl, Nat.lt_add_of_pos_right (Nat.succ_pos _)⟩
      · exact .inl hold
    · exact .inr ⟨hwal, by omega, by omega⟩

/-- Behind the entries below `first` stand those of the items, then what they did not replace. -/
theorem indexItems_append {low high : Index} (pos : Nat) (items : List Item)
    (hlow : ∀ e ∈ low, e.1 < first) (hhigh : ∀ e ∈ high, first ≤ e.1) :
    indexItems c first pos items (low ++ high) = low ++ (itemEntries c first pos items ++
      high.filter fun e => first + items.length ≤ e.1) := by
  induction items generalizing first pos low high with
  | nil => rw [indexItems, itemEntries, nil_append, filter_eq_self.mpr (by simpa using hhigh)]
  | cons item items ih =>
    have hinsert : (low ++ high).insert first ⟨.wal, pos⟩
        = (low ++ [(first, ⟨.wal, pos⟩)]) ++ high.filter fun e => first < e.1 := by
      rw [KeyMap.insert_append hlow hhigh, append_assoc]
      rfl
    have hlow' : ∀ e ∈ low ++ [(first, (⟨.wal, pos⟩ : LogPosition))], e.1 < first + 1 := by
      intro e he
      rcases mem_append.mp he with hold | hnew
      · exact Nat.lt_succ_of_lt (hlow e hold)
      · rw [mem_singleton] at hnew
        exact hnew ▸ Nat.lt_succ_self _
    have hhigh' : ∀ e ∈ high.filter fun e => first < e.1, first + 1 ≤ e.1 :=
      fun e he => of_decide_eq_true (mem_filter.mp he).2
    have hfilter : (high.filter fun e => first < e.1).filter (fun e =>
        first + 1 + items.length ≤ e.1) = high.filter fun e =>
        first + (item :: items).length ≤ e.1 := by
      rw [filter_filter]
      refine filter_congr fun e _ => ?_
      rw [← Bool.decide_and, decide_eq_decide, length_cons]
      omega
    rw [indexItems, hinsert, ih _ hlow' hhigh', hfilter, append_assoc]
    rfl

theorem le_of_mem_itemEntries (he : e ∈ itemEntries c first pos items) : first ≤ e.1 := by
  have hall : indexItems c first pos items ([] ++ [])
      = [] ++ (itemEntries c first pos items ++ _) :=
    indexItems_append pos items nofun nofun
  rcases mem_indexItems (hall ▸ mem_append_left _ he) with hnil | ⟨-, hge, -⟩
  · cases hnil
  · exact hge

/-- The messages and the frames of items appended from offset `first` on. -/
def stampedFrames (c : Codec) (partition : UInt32) :
    Nat → List Item → List (StoredMessage × Bytes)
  | _, [] => []
  | first, item :: items => (storedMessage item.1 item.2 partition first, frameBytes c item) ::
    stampedFrames c partition (first + 1) items

theorem stampedFrames_fst (partition : UInt32) (first : Nat) (items : List Item) :
    (stampedFrames c partition first items).map Prod.fst = messagesFrom partition first items := by
  induction items generalizing first with
  | nil => rfl
  | cons item items ih => exact congrArg (_ :: ·) (ih _)

theorem stampedFrames_snd (partition : UInt32) (first : Nat) (items : List Item) :
    (stampedFrames c partition first items).map Prod.snd = items.map (frameBytes c) := by
  induction items generalizing first with
  | nil => rfl
  | cons item items ih => exact congrArg (_ :: ·) (ih _)

/-- The log with another index. -/
def Sys.withIndex (s : Sys) (index : Index) : Sys :=
  s.withLog fun log => { log with index := index }

theorem encodeItems_cons {header : LogRecord} {payload : Bytes}
    (hframe : encodeFrame env.codec header payload = .ok frame) (partition : UInt32)
    (items : List Item) (pos first : Nat) (s : Sys) :
    encodeItems env partition ((header, payload) :: items) pos first s = (do
        let out ← encodeItems env partition items (pos + frame.length) (first + 1)
        pure ((storedMessage header payload partition first, frame) :: out))
      (s.withIndex (s.index.insert first ⟨.wal, pos⟩)) := by
  refine (bind_ok (by rw [hframe]; rfl)).trans ?_
  rfl

/-- **Encoding a batch** touches only the index. Either an item fails to encode, and those before it
are entered, or all are and their messages and frames are returned. -/
theorem encodeItems_cases (env : Env) (partition : UInt32) (items : List Item) (pos first : Nat)
    (s : Sys) :
    (∃ done item rest e, items = done ++ item :: rest ∧
      encodeFrame env.codec item.1 item.2 = .error e ∧
      encodeItems env partition items pos first s
        = (.error (.record e), s.withIndex (indexItems env.codec first pos done s.index))) ∨
    ((∀ item ∈ items, FrameOk env.codec item) ∧
      encodeItems env partition items pos first s
        = (.ok (stampedFrames env.codec partition first items),
        s.withIndex (indexItems env.codec first pos items s.index))) := by
  induction items generalizing pos first s with
  | nil => exact .inr ⟨by simp, rfl⟩
  | cons item items ih =>
    obtain ⟨header, payload⟩ := item
    cases hframe : encodeFrame env.codec header payload with
    | error e =>
      refine .inl ⟨[], (header, payload), items, e, rfl, hframe, ?_⟩
      exact bind_error (by rw [hframe]; rfl)
    | ok frame =>
      obtain ⟨hok, rfl⟩ := (encodeFrame_eq_ok_iff env.codec (header, payload) frame).mp hframe
      have hhead := encodeItems_cons hframe partition items pos first s
      rcases ih (pos + (frameBytes env.codec (header, payload)).length) (first + 1)
          (s.withIndex (s.index.insert first ⟨.wal, pos⟩)) with
        ⟨done, item, rest, e, rfl, herror, hrun⟩ | ⟨hoks, hrun⟩
      · refine .inl ⟨(header, payload) :: done, item, rest, e, rfl, herror, ?_⟩
        exact hhead.trans (bind_error hrun)
      · exact .inr ⟨forall_mem_cons.mpr ⟨hok, hoks⟩, hhead.trans (bind_ok hrun)⟩

/-! ## The batches an append writes -/

theorem exists_frames (hc : c.Lawful) (hok : ∀ item ∈ items, FrameOk c item)
    (hlen : ∀ item ∈ items, item.2.length < 2 ^ 32) :
    ∃ fs : List (Frame c), fs.map Frame.item = items ∧
      fs.map Frame.bytes = items.map (frameBytes c) := by
  induction items with
  | nil => exact ⟨[], rfl, rfl⟩
  | cons item items ih =>
    obtain ⟨fs, hitems, hbytes⟩ := ih (fun i hi => hok i (.tail _ hi))
      (fun i hi => hlen i (.tail _ hi))
    refine ⟨encodedFrame hc item (hok item (by simp)) (hlen item (by simp)) :: fs, ?_, ?_⟩
    · rw [map_cons, hitems]
      rfl
    · rw [map_cons, hbytes]
      rfl

/-- The batches that hold new frames: one each in V1, one epoch in V2. -/
def batchesOf (fmt : WalFormat) (leaderEpoch : Nat) (fs : List (Frame c)) : List (Batch c) :=
  match fmt with
  | .v1 => fs.map fun f => ⟨leaderEpoch, 0, [f]⟩
  | .v2 => [⟨leaderEpoch, 0, fs⟩]

theorem records_batchesOf (fmt : WalFormat) (leaderEpoch : Nat) (fs : List (Frame c)) :
    records (batchesOf fmt leaderEpoch fs) = fs := by
  cases fmt with
  | v1 =>
    induction fs with
    | nil => rfl
    | cons f fs ih =>
      show [f] ++ records (batchesOf .v1 leaderEpoch fs) = _
      rw [ih]
      rfl
  | v2 => simp [batchesOf]

theorem fileOk_batchesOf (hv2 : fmt = .v2 → (fs.flatMap Frame.bytes).length ≤ maxEpochBodyBytes ∧
      first + fs.length < 2 ^ 64) : FileOk fmt first (batchesOf fmt leaderEpoch fs) := by
  cases fmt with
  | v1 =>
    clear hv2
    induction fs generalizing first with
    | nil => exact trivial
    | cons f fs ih => exact ⟨rfl, ih⟩
  | v2 => exact ⟨hv2 rfl, trivial⟩

theorem placed_batchesOf (fmt : WalFormat) (leaderEpoch first pos : Nat) (fs : List (Frame c)) :
    placed fmt first pos (batchesOf fmt leaderEpoch fs)
      = placedFrames first (pos + batchHead fmt) fs := by
  cases fmt with
  | v1 =>
    induction fs generalizing first pos with
    | nil => rfl
    | cons f fs ih =>
      show placedFrames first (pos + 0) [f] ++ placed .v1 (first + 1)
        (pos + 0 + (⟨leaderEpoch, 0, [f]⟩ : Batch c).body.length) (batchesOf .v1 leaderEpoch fs) = _
      rw [ih, Batch.body, flatMap_singleton]
      rfl
  | v2 => simp [batchesOf, placed]

theorem fileBytes_batchesOf_v1 (shard : UInt32) (first leaderEpoch : Nat) (fs : List (Frame c)) :
    fileBytes .v1 shard first (batchesOf .v1 leaderEpoch fs) = fs.flatMap Frame.bytes := by
  rw [fileBytes_v1, records_batchesOf]

theorem itemEntries_eq (first pos : Nat) (hbytes : fs.map Frame.bytes = items.map (frameBytes c)) :
    itemEntries c first pos items = (placedFrames first pos fs).map (Placed.entry .wal) := by
  induction items generalizing fs first pos with
  | nil =>
    have hnil : fs = [] := map_eq_nil_iff.mp hbytes
    subst hnil
    rfl
  | cons item items ih =>
    obtain ⟨f, fs', rfl, hhead, htail⟩ := map_eq_cons_iff.mp hbytes
    rw [itemEntries, ih _ _ htail, placedFrames, hhead]
    rfl

/-! ## Writing -/

/-- The layout with more batches at the end of the WAL. -/
def Layout.extended (L : Layout c) (bs : List (Batch c)) : Layout c :=
  { L with pending := L.pending ++ bs }

theorem extended_active (L : Layout c) (bs : List (Batch c)) :
    (L.extended bs).active = L.active ++ bs := by
  simp [Layout.extended, Layout.active]

theorem extended_frames (L : Layout c) (bs : List (Batch c)) :
    (L.extended bs).frames = L.frames ++ records bs := by
  rw [Layout.frames, extended_active, records_append, ← append_assoc]
  rfl

theorem extended_items (L : Layout c) (bs : List (Batch c)) :
    (L.extended bs).items = L.items ++ (records bs).map Frame.item := by
  rw [Layout.items, extended_frames, List.map_append, Layout.items]

theorem grows_extended (L : Layout c) (bs : List (Batch c)) : L.Grows (L.extended bs) :=
  ⟨prefix_rfl, prefix_rfl⟩

/-- **Writing new batches at the end of the WAL.** -/
theorem writeRecords_step (bs : List (Batch c)) (h : Live fmt strict L s)
    (hok : FileOk fmt L.frames.length bs) (hindex : Indexes s.purgedOffsets
      (placed fmt L.base 0 L.active ++ placed fmt L.frames.length s.walSize bs)
      (L.frames.length + (records bs).length) s.index) :
    OpStep fmt strict L s (L.extended bs) (writeRecords (fileBytes fmt s.shardId L.frames.length bs)
        (records bs).length s).2 := by
  set m := s.manifest with hm
  set L' := L.extended bs with hL'
  have hfile : fileBytes fmt m.shardId L.base L'.active
      = fileBytes fmt m.shardId L.base L.active ++ fileBytes fmt m.shardId L.frames.length bs := by
    rw [hL', extended_active, fileBytes_append, L.length_frames]
  have hactive : FileOk fmt L.base L'.active := by
    rw [extended_active, fileOk_append, ← L.length_frames]
    exact ⟨h.onDisk.activeOk, hok⟩
  have hdisk : OnDisk fmt m strict L' [] (s.disk.writeWal
      (fileBytes fmt m.shardId L.frames.length bs)) := by
    have hset := h.onDisk.setWal L' [] rfl hactive (.nil fmt)
    rw [append_nil, hfile] at hset
    have hwrite : s.disk.writeWal (fileBytes fmt m.shardId L.frames.length bs) = { s.disk with
        wal := some ⟨fileBytes fmt m.shardId L.base L.active ++
            fileBytes fmt m.shardId L.frames.length bs,
          (fileBytes fmt m.shardId L.base L.durable).length⟩ } := by
      simp only [Disk.writeWal, h.wal_eq, Option.map_some, FileData.append, hm]
    rw [hwrite]
    exact hset
  refine ⟨⟨hdisk, ?_, h.rollSaved, h.rollCount, ?_, ?_, h.activeBaseOffset, h.sealedIndexes, ?_,
    h.mode, h.committed⟩, grows_extended L bs, ?_, rfl, rfl, _, rfl, ?_⟩
  · show (s.disk.writeWal _).wal.isSome = true
    simp [Disk.writeWal, h.wal_eq]
  · show s.nextOffset + (records bs).length = _
    rw [h.nextOffset, extended_frames, length_append]
  · show s.walSize + _ = (fileBytes fmt m.shardId L.base L'.active).length
    rw [hfile, length_append, h.walSize]
  · refine ⟨h.index.wal, ?_⟩
    show Indexes s.purgedOffsets (placed fmt L.base 0 L'.active) L'.frames.length s.index
    rw [hL', extended_active, placed_append fmt m.shardId, ← L.length_frames, Nat.zero_add,
      ← h.walSize, extended_frames, length_append]
    exact hindex
  · rw [extended_frames]
    exact prefix_append _ _
  · intro d hd
    rw [mem_singleton] at hd
    subst hd
    exact ⟨L', hdisk, .inl h.rollSaved, grows_extended L bs, prefix_rfl⟩

/-! ## What an append does -/

/-- The log with what a fence may have changed. -/
def Sys.fenced (s : Sys) (gen : Nat) (dirty : Bool) : Sys :=
  s.withLog fun log => { log with leaderGeneration := gen, dirty := dirty }

/-- The fence is accepted, and leaves the log at generation `gen`. -/
structure Accepted (fence : Option Nat) (log : PartitionLog) (gen : Nat) (dirty : Bool) : Prop where
  le : log.leaderGeneration ≤ gen
  gens : ∀ g ∈ fence, g = gen
  dirty : (gen = log.leaderGeneration ∧ dirty = log.dirty) ∨ (fence ≠ none ∧ dirty = true)

theorem applyFence_cases (fence : Option Nat) (s : Sys) :
    (∃ gen ∈ fence, gen < s.leaderGeneration ∧
      applyFence fence s = (.error (.staleFence gen s.leaderGeneration), s)) ∨
    ∃ gen dirty, Accepted fence s.log gen dirty ∧ applyFence fence s
      = (.ok (), s.fenced gen dirty) := by
  unfold applyFence
  cases fence with
  | none => exact .inr ⟨_, _, ⟨le_rfl, nofun, .inl ⟨rfl, rfl⟩⟩, rfl⟩
  | some gen =>
    simp only [getLog_bind]
    by_cases hstale : gen < s.leaderGeneration
    · rw [if_pos hstale]
      exact .inl ⟨gen, rfl, hstale, rfl⟩
    · rw [if_neg hstale]
      right
      by_cases hnew : gen > s.leaderGeneration
      · rw [if_pos hnew]
        exact ⟨gen, true, ⟨hnew.le, by simp, .inr ⟨nofun, rfl⟩⟩, rfl⟩
      · rw [if_neg hnew]
        have hsame : gen = s.leaderGeneration := by omega
        exact ⟨gen, s.dirty, ⟨hsame.ge, by simp, .inl ⟨hsame, rfl⟩⟩, by rw [hsame]; rfl⟩

theorem Accepted.again {gen' : Nat} {dirty dirty' : Bool} (h : Accepted fence s.log gen dirty)
    (h' : Accepted fence (s.fenced gen dirty).log gen' dirty') :
    Accepted fence s.log gen' dirty' := by
  refine ⟨h.le.trans h'.le, h'.gens, ?_⟩
  rcases h'.dirty with ⟨rfl, rfl⟩ | hset
  · exact h.dirty
  · exact .inr hset

/-- Where the next frame goes. -/
def PartitionLog.framePosition (log : PartitionLog) : Nat :=
  log.walSize + if isV2 log.manifest then epochHeaderBytes else 0

/-- Entries for `items` in the index, from the next offset on. -/
def Sys.encoded (env : Env) (items : List Item) (s : Sys) : Sys :=
  s.withIndex (indexItems env.codec s.nextOffset s.log.framePosition items s.index)

/-- What an append does behind its write. -/
def finishAppend {α : Type} (env : Env) (a : α) : LogM α := do
  afterWrite
  rollIfFull env
  pure a

/-- **How an append of `items` ends.** Its fence is stale; or it fails with the error `e`, having
entered the items `done` into the index; or it writes `bytes` under the generation `gen` and, if
nothing fails behind the write, returns `a`. -/
inductive AppendRun {α : Type} (env : Env) (fence : Option Nat) (items : List Item)
    (E : List Item → LogError → Prop) (P : Nat → Bytes → α → Prop) (s : Sys)
    (r : Except LogError α × Sys) : Prop
  | stale {gen : Nat} (hgen : gen ∈ fence) (hlt : gen < s.leaderGeneration)
    (h : r = (.error (.staleFence gen s.leaderGeneration), s))
  | failed {gen : Nat} {dirty : Bool} {done : List Item} {e : LogError}
    (haccepted : Accepted fence s.log gen dirty) (he : E done e)
    (h : r = (.error e, (s.fenced gen dirty).encoded env done))
  | written {gen : Nat} {dirty : Bool} {bytes : Bytes} {a : α}
    (haccepted : Accepted fence s.log gen dirty) (ha : P gen bytes a)
    (h : r = finishAppend env a
      (writeRecords bytes items.length ((s.fenced gen dirty).encoded env items)).2)

section AppendRun

variable {α β : Type} {fence : Option Nat} {E : List Item → LogError → Prop}
  {P : Nat → Bytes → α → Prop} {Q : Nat → Bytes → β → Prop} {r : Except LogError α × Sys}
  {k : α → LogM β} {a : α}

theorem finishAppend_bind {b : β} (hk : ∀ s, k a s = (.ok b, s)) (s : Sys) :
    (finishAppend env a >>= k) s = finishAppend env b s := by
  unfold finishAppend
  rcases hwrite : afterWrite s with ⟨e | _, s₁⟩
  · rw [bind_error (bind_error hwrite), bind_error hwrite]
  · rcases hroll : rollIfFull env s₁ with ⟨e | _, s₂⟩
    · rw [bind_error ((bind_ok hwrite).trans (bind_error hroll)), bind_ok hwrite, bind_error hroll]
    · rw [bind_ok ((bind_ok hwrite).trans (bind_ok hroll)), bind_ok hwrite, bind_ok hroll]
      exact hk s₂

/-- The caller of an append hands its result on. -/
theorem AppendRun.map {m : LogM α} {F : List Item → LogError → Prop}
    (h : AppendRun env fence items E P s (m s)) (hE : ∀ done e, E done e → F done e)
    (hk : ∀ gen bytes a, P gen bytes a → ∃ b, Q gen bytes b ∧ ∀ s', k a s' = (.ok b, s')) :
    AppendRun env fence items F Q s ((m >>= k) s) := by
  cases h with
  | stale hgen hlt h => exact .stale hgen hlt (bind_error h)
  | failed haccepted he h => exact .failed haccepted (hE _ _ he) (bind_error h)
  | written haccepted ha h =>
    obtain ⟨b, hb, hpure⟩ := hk _ _ _ ha
    refine .written haccepted hb ?_
    rw [← finishAppend_bind hpure, bind_apply, h]
    rfl

theorem finishAppend_ok {b : α} (h : (finishAppend env a s).1 = .ok b) : b = a := by
  obtain ⟨_, s₁, -, hroll⟩ := bind_eq_ok (Prod.ext h rfl)
  obtain ⟨_, s₂, -, hdone⟩ := bind_eq_ok hroll
  cases hdone
  rfl

theorem AppendRun.result (h : AppendRun env fence items E P s r) (ha : r.1 = .ok a) :
    ∃ gen bytes, P gen bytes a := by
  cases h with
  | stale _ _ h | failed _ _ h =>
    rw [h] at ha
    cases ha
  | written _ hP h =>
    rw [h] at ha
    cases finishAppend_ok ha
    exact ⟨_, _, hP⟩

/-- A fence is checked twice with the result of the first check. -/
theorem AppendRun.fenced {dirty : Bool} (haccepted : Accepted fence s.log gen dirty)
    (h : AppendRun env fence items E P (s.fenced gen dirty) r) :
    AppendRun env fence items E P s r := by
  cases h with
  | stale hgen hlt h => exact absurd hlt (haccepted.gens _ hgen).not_lt
  | failed hagain he h => exact .failed (haccepted.again hagain) he h
  | written hagain ha h => exact .written (haccepted.again hagain) ha h

end AppendRun

/-! ## Every append is one -/

/-- The bytes written for a batch: the frames of its items, in the V2 format behind an epoch
header. -/
structure BatchBytes (env : Env) (manifest : WalManifest) (next : Nat)
    (items : List Item) (gen : Nat)
    (bytes : Bytes) : Prop where
  ok : ∀ item ∈ items, FrameOk env.codec item
  bytes : let body := items.flatMap (frameBytes env.codec)
    if isV2 manifest then body.length ≤ maxEpochBodyBytes ∧ bytes = (EpochHeader.v2 env.codec
      manifest.shardId.toNat gen next (items.length % 2 ^ 32) body).bytes ++ body
    else bytes = body

/-- Why a batch is not written: the item behind `done` does not encode, or an epoch does not hold
the frames. -/
def Unencodable (env : Env) (manifest : WalManifest) (items done : List Item)
    (e : LogError) : Prop :=
  (∃ item rest cause, items = done ++ item :: rest ∧
    encodeFrame env.codec item.1 item.2 = .error cause ∧ e = .record cause) ∨
  ((∀ item ∈ items, FrameOk env.codec item) ∧ isV2 manifest = true ∧
    maxEpochBodyBytes < (items.flatMap (frameBytes env.codec)).length ∧ ∃ cause, e = .epoch cause)

theorem appendBatch_run (env : Env) (partition : UInt32) (hne : items ≠ []) (fence : Option Nat)
    (s : Sys) :
    AppendRun env fence items (Unencodable env s.manifest items)
      (fun gen bytes out => BatchBytes env s.manifest s.nextOffset items gen bytes ∧
        out = stampedFrames env.codec partition s.nextOffset items)
      s (appendBatch env partition items fence s) := by
  rw [appendBatch, appendBatchBy, if_neg hne]
  rcases applyFence_cases fence s with ⟨gen, hgen, hlt, hfence⟩ | ⟨gen, dirty, haccepted, hfence⟩
  · exact .stale hgen hlt (bind_error hfence)
  rw [bind_ok hfence, getLog_bind,
    show (s.fenced gen dirty).nextOffset = s.nextOffset from rfl]
  rcases encodeItems_cases env partition items _ s.nextOffset (s.fenced gen dirty) with
    ⟨done, item, rest, e, hsplit, herror, hrun⟩ | ⟨hoks, hrun⟩
  · exact .failed haccepted (.inl ⟨item, rest, e, hsplit, herror, rfl⟩) (bind_error hrun)
  · rw [bind_ok hrun, getLog_bind]
    have hframes := stampedFrames_snd (c := env.codec) partition s.nextOffset items
    generalize hout : stampedFrames env.codec partition s.nextOffset items
      = out at hframes ⊢
    have hbody : (out.flatMap fun e => e.2) = items.flatMap (frameBytes env.codec) := by
      rw [flatMap_def, hframes, flatMap_def]
    have hcount : out.length = items.length := by simpa using congrArg List.length hframes
    have hmanifest : ∀ index, ((s.fenced gen dirty).withIndex index).manifest
      = s.manifest :=
      fun _ => rfl
    rw [hbody, hcount, hmanifest]
    cases hv2 : isV2 s.manifest with
    | false =>
      exact .written haccepted ⟨⟨hoks, by rw [hv2]; rfl⟩, rfl⟩ rfl
    | true =>
      rw [if_pos rfl, encodeEpoch_v2]
      split
      · next hfits =>
        exact .written haccepted ⟨⟨hoks, by rw [hv2]; exact ⟨hfits, rfl⟩⟩, rfl⟩ rfl
      · next hlarge => exact .failed haccepted (.inr ⟨hoks, hv2, Nat.not_le.mp hlarge, _, rfl⟩) rfl

/-- The V1 tail of an append: the frame is entered and written. -/
theorem appendFrame_eq (partition : UInt32) (item : Item) (frame : Bytes)
    (hv1 : isV2 s.manifest = false) :
    appendFrame env partition item frame s
      = finishAppend env (storedMessage item.1 item.2 partition s.nextOffset)
        (writeRecords frame 1 (s.encoded env [item])).2 := by
  unfold Sys.encoded PartitionLog.framePosition
  rw [hv1]
  rfl

theorem appendFenced_run (env : Env) (partition : UInt32) (header : LogRecord) (payload : Bytes)
    (fence : Option Nat) (s : Sys) :
    AppendRun env fence [(header, payload)] (Unencodable env s.manifest [(header, payload)])
      (fun gen bytes out => BatchBytes env s.manifest s.nextOffset [(header, payload)] gen bytes ∧
        out = (storedMessage header payload partition s.nextOffset,
          frameBytes env.codec (header, payload)))
      s (appendFenced env partition header payload fence s) := by
  unfold appendFenced
  rcases applyFence_cases fence s with ⟨gen, hgen, hlt, hfence⟩ | ⟨gen, dirty, haccepted, hfence⟩
  · exact .stale hgen hlt (bind_error hfence)
  rw [bind_ok hfence, getLog_bind]
  cases hv2 : isV2 (s.fenced gen dirty).manifest with
  | true =>
    refine .fenced haccepted (.map (appendBatch_run env partition (cons_ne_nil _ _) fence
      (s.fenced gen dirty)) (fun _ _ he => he) ?_)
    rintro gen bytes _ ⟨hbytes, rfl⟩
    exact ⟨_, ⟨hbytes, rfl⟩, fun _ => rfl⟩
  | false =>
    cases hframe : encodeFrame env.codec header payload with
    | error e =>
      have he : Unencodable env s.manifest [(header, payload)] [] (.record e) :=
        .inl ⟨_, [], e, rfl, hframe, rfl⟩
      exact .failed haccepted he rfl
    | ok frame =>
      obtain ⟨hok, rfl⟩ := (encodeFrame_eq_ok_iff env.codec (header, payload) frame).mp hframe
      have hbytes : BatchBytes env s.manifest s.nextOffset [(header, payload)] gen
          (frameBytes env.codec (header, payload)) := by
        refine ⟨by simpa using hok, ?_⟩
        rw [show isV2 s.manifest = false from hv2]
        exact (append_nil _).symm
      refine .written haccepted ⟨hbytes, rfl⟩ ?_
      show (appendFrame env partition (header, payload) _ >>= _) _ = _
      rw [bind_apply, appendFrame_eq partition _ _ hv2]
      exact finishAppend_bind (k := fun stored => pure (stored, _)) (fun _ => rfl) _

/-- What `append_raw_frame` does once the frame is decoded and its offset is the next one. -/
def appendReceived (env : Env) (partition : UInt32) (item : Item) (frame : Bytes) :
    LogM StoredMessage := do
  let log ← getLog
  if isV2 log.manifest then do
    let out ← appendBatch env partition [item] none
    let (stored, _) ← popSingle out
    pure stored
  else appendFrame env partition item frame

/-- A V1 log writes the bytes it received, a V2 log encodes the record anew. -/
theorem appendReceived_run (env : Env) (partition : UInt32) (item : Item) (frame : Bytes)
    (s : Sys) :
    AppendRun env none [item]
      (fun done e => isV2 s.manifest = true ∧ Unencodable env s.manifest [item] done e)
      (fun gen bytes stored => (if isV2 s.manifest then BatchBytes env s.manifest
        s.nextOffset [item] gen bytes
        else bytes = frame) ∧
        stored = storedMessage item.1 item.2 partition s.nextOffset)
      s (appendReceived env partition item frame s) := by
  unfold appendReceived
  rw [getLog_bind]
  cases hv2 : isV2 s.manifest with
  | true =>
    refine .map (appendBatch_run env partition (cons_ne_nil item []) none s)
      (fun _ _ he => ⟨rfl, he⟩) ?_
    rintro gen bytes _ ⟨hbytes, rfl⟩
    exact ⟨_, ⟨hbytes, rfl⟩, fun _ => rfl⟩
  | false =>
    refine .written ⟨le_rfl, nofun, .inl ⟨rfl, rfl⟩⟩ ⟨rfl, rfl⟩ ?_
    exact appendFrame_eq partition item frame hv2

/-! ## Appends keep a log live -/

theorem finishAppend_step {L : Layout env.codec} (a : α) (h : Live fmt strict L s)
    (harchive : env.archive = false) (hnew : s.activeBaseOffset < s.nextOffset) :
    ∃ L', OpStep fmt strict L s L' (finishAppend env a s).2 ∧ L'.frames = L.frames ∧
      (s.failNextSync = false → GoesThrough (finishAppend env a) s a) := by
  obtain ⟨L₁, hwrite, hframes₁⟩ := afterWrite_step h
  have hoffsets := afterWrite_offsets s
  rcases hrun₁ : afterWrite s with ⟨e | _, s₁⟩ <;> rw [hrun₁] at hwrite hoffsets
  · have hfails : finishAppend env a s = (.error e, s₁) := bind_error hrun₁
    rw [hfails]
    refine ⟨L₁, hwrite, hframes₁, fun hsync => ?_⟩
    obtain ⟨_, hok, -⟩ := afterWrite_ok hsync
    cases hrun₁.symm.trans hok
  · obtain ⟨L₂, s₂, hrun₂, hroll, hframes₂, hfault⟩ := rollIfFull_step hwrite.live harchive
      (by rw [hoffsets.1, hoffsets.2]; exact hnew)
    have hdone : finishAppend env a s = (.ok a, s₂) :=
      (bind_ok hrun₁).trans (bind_ok hrun₂)
    rw [hdone]
    refine ⟨L₂, hwrite.trans hroll, hframes₂.trans hframes₁, fun hsync => ?_⟩
    obtain ⟨_, hok, hsync₁⟩ := afterWrite_ok hsync
    cases hrun₁.symm.trans hok
    exact ⟨s₂, hdone, hfault.trans hsync₁⟩

theorem Live.fenced_step (h : Live fmt strict L s) (gen : Nat) (dirty : Bool) :
    OpStep fmt strict L s L (s.fenced gen dirty) :=
  h.withLog _ rfl rfl rfl rfl rfl rfl rfl ⟨h.index.wal, h.index.entries⟩ h.committed

theorem Live.isV2_eq (h : Live fmt strict L s) : isV2 s.manifest = decide (fmt = .v2) := by
  unfold isV2
  rw [h.onDisk.format]
  cases fmt <;> rfl

theorem placed_offset_lt : ∀ x ∈ placed fmt L.base 0 L.active, x.offset < L.frames.length := by
  intro x hx
  rw [L.length_frames]
  exact (placed_bounds hx).2

theorem placed_entry_lt (hidden : List Nat) :
    ∀ e ∈ scannedIndex hidden .wal (placed fmt L.base 0 L.active), e.1 < L.frames.length := by
  intro e he
  obtain ⟨x, hx, -, rfl⟩ := mem_scannedIndex he
  exact placed_offset_lt x hx

/-- Records from `next` on are not hidden by tombstones below it. -/
theorem scannedIndex_filter_append {hidden : List Nat} {xs ys : List (Placed c)} {next : Nat}
    (hxs : ∀ x ∈ xs, x.offset < next) (hys : ∀ y ∈ ys, next ≤ y.offset) :
    scannedIndex (hidden.filter fun o => o < next) .wal (xs ++ ys)
      = scannedIndex hidden .wal xs ++ ys.map (Placed.entry .wal) := by
  rw [scannedIndex_append]
  congr 1
  · unfold scannedIndex
    congr 1
    refine filter_congr fun x hx => ?_
    simp [hxs x hx]
  · unfold scannedIndex
    congr 1
    refine filter_eq_self.mpr fun y hy => ?_
    simp [Nat.not_lt.mpr (hys y hy)]

/-- However far encoding got, the entries it leaves are past the next offset. -/
theorem Live.encoded_step (h : Live fmt strict L s) (env : Env) (done : List Item) :
    OpStep fmt strict L s L (s.encoded env done) := by
  obtain ⟨hidden, junk, hhidden, hsplit, hjunk⟩ := h.index.entries
  have hentries := indexItems_append (c := env.codec) s.log.framePosition done
    (@placed_entry_lt c fmt L hidden) hjunk
  rw [← hsplit, ← h.nextOffset] at hentries
  refine h.withLog (fun log => { log with index := (s.encoded env done).index })
    rfl rfl rfl rfl rfl rfl rfl ⟨fun e he => ?_, hidden, _, hhidden, hentries, fun e he => ?_⟩
    h.committed
  · rcases mem_indexItems he with hold | ⟨hwal, -⟩
    · exact h.index.wal e hold
    · exact hwal
  · rcases mem_append.mp he with hnew | hold
    · exact h.nextOffset ▸ le_of_mem_itemEntries hnew
    · exact hjunk e (mem_filter.mp hold).1

/-- What an append does to a live log: it adds all of `items` or none, and a result means they
were added and satisfies `post`. -/
def Appended {α : Type} (fmt : WalFormat) (strict : Bool) (L : Layout c) (s : Sys)
    (items : List Item) (r : Except LogError α × Sys) (post : α → Prop) : Prop :=
  ∃ L', OpStep fmt strict L s L' r.2 ∧ (L'.items = L.items ∨ L'.items = L.items ++ items) ∧
    ∀ a, r.1 = .ok a → L'.items = L.items ++ items ∧ post a

theorem Appended.of_error {s' : Sys} {e : LogError} (h : OpStep fmt strict L s L s') :
    Appended fmt strict L s items (.error e, s') post :=
  ⟨L, h, .inl rfl, nofun⟩

/-- The bytes of the frames `fs`, which hold `items` and are to be written next. -/
structure NewFrames (fmt : WalFormat) (L : Layout c) (shard : UInt32) (items : List Item)
    (leaderEpoch : Nat) (bytes : Bytes) (fs : List (Frame c)) : Prop where
  ne : fs ≠ []
  holds : fs.map Frame.item = items
  entries : ∀ first pos,
    itemEntries c first pos items = (placedFrames first pos fs).map (Placed.entry .wal)
  v2 : fmt = .v2 → (fs.flatMap Frame.bytes).length ≤ maxEpochBodyBytes ∧
    L.frames.length + fs.length < 2 ^ 64
  bytes : bytes = fileBytes fmt shard L.frames.length (batchesOf fmt leaderEpoch fs)

/-- **Entering and writing new frames.** -/
theorem NewFrames.written {L : Layout env.codec} {fs : List (Frame env.codec)}
    (hnew : NewFrames fmt L s.shardId items leaderEpoch bytes fs)
    (h : Live fmt strict L s) :
    OpStep fmt strict L s (L.extended (batchesOf fmt leaderEpoch fs))
        (writeRecords bytes items.length (s.encoded env items)).2 ∧
      (writeRecords bytes items.length (s.encoded env items)).2.activeBaseOffset
        < (writeRecords bytes items.length (s.encoded env items)).2.nextOffset := by
  have hrec := records_batchesOf fmt leaderEpoch fs
  have hlen : fs.length = items.length := by rw [← hnew.holds, length_map]
  have hencoded := h.encoded_step env items
  have hpos : s.log.framePosition = s.walSize + batchHead fmt := by
    rw [PartitionLog.framePosition, h.isV2_eq]
    cases fmt <;> rfl
  -- what is appended now is shown, whatever was purged
  have hindex : Indexes s.purgedOffsets (placed fmt L.base 0 L.active ++
      placedFrames L.frames.length (s.walSize + batchHead fmt) fs)
      (L.frames.length + fs.length) (s.encoded env items).index := by
    obtain ⟨hidden, junk, hhidden, hsplit, hjunk⟩ := h.index.entries
    refine ⟨hidden.filter fun o => o < L.frames.length,
      junk.filter fun e => L.frames.length + items.length ≤ e.1,
      fun o ho => hhidden o (mem_filter.mp ho).1, ?_, ?_⟩
    · rw [scannedIndex_filter_append placed_offset_lt fun y hy => (placedFrames_bounds hy).1,
        ← hnew.entries, append_assoc, ← indexItems_append _ _ (placed_entry_lt hidden) hjunk,
        ← hsplit, ← hpos, ← h.nextOffset]
      rfl
    · intro e he
      rw [hlen]
      exact of_decide_eq_true (mem_filter.mp he).2
  have hwrite := writeRecords_step (batchesOf fmt leaderEpoch fs) hencoded.live
    (fileOk_batchesOf hnew.v2) (by rw [placed_batchesOf, hrec]; exact hindex)
  rw [hrec, hlen, show (s.encoded env items).manifest = s.manifest from rfl, ← hnew.bytes] at hwrite
  refine ⟨hencoded.trans hwrite, ?_⟩
  have hpos : 0 < fs.length := length_pos_iff.mpr hnew.ne
  show s.activeBaseOffset < s.nextOffset + items.length
  rw [h.activeBaseOffset, h.nextOffset, L.length_frames]
  omega

/-- An append keeps the log live, and fails only by its fence, by what `E` says, or by an injected
fsync failure. -/
structure AppendStep {α : Type} (fmt : WalFormat) (strict : Bool) (L : Layout c)
    (fence : Option Nat)
    (E : List Item → LogError → Prop) (s : Sys) (items : List Item) (r : Except LogError α × Sys)
    (post : α → Prop) : Prop where
  appended : Appended fmt strict L s items r post
  succeeds : s.failNextSync = false →
    (∀ gen ∈ fence, ¬ gen < s.leaderGeneration) → (∀ done e, ¬ E done e) →
    ∃ a s', post a ∧ r = (.ok a, s') ∧ s'.failNextSync = false

/-- **An append of frames keeps the log live.** -/
theorem AppendRun.step {L : Layout env.codec} {E : List Item → LogError → Prop}
    {P : Nat → Bytes → α → Prop} {r : Except LogError α × Sys}
    (hr : AppendRun env fence items E P s r) (h : Live fmt strict L s)
    (harchive : env.archive = false) (hP : ∀ gen bytes a, P gen bytes a →
      post a ∧ ∃ leaderEpoch fs, NewFrames fmt L s.shardId items leaderEpoch bytes fs) :
    AppendStep fmt strict L fence E s items r post := by
  cases hr with
  | stale hgen hlt hr =>
    subst hr
    exact ⟨.of_error (.refl h), fun _ hfresh _ => absurd hlt (hfresh _ hgen)⟩
  | @failed gen dirty done _ _ he hr =>
    subst hr
    have hfenced := h.fenced_step gen dirty
    exact ⟨.of_error (hfenced.trans (hfenced.live.encoded_step env done)),
      fun _ _ hnone => absurd he (hnone _ _)⟩
  | @written gen dirty _ _ _ ha hr =>
    subst hr
    obtain ⟨hpost, leaderEpoch, fs, hnew⟩ := hP _ _ _ ha
    have hfenced := h.fenced_step gen dirty
    obtain ⟨hwrite, hlater⟩ := hnew.written (s := s.fenced gen dirty) hfenced.live
    obtain ⟨L', hfinish, hframes, hok⟩ := finishAppend_step _ hwrite.live harchive hlater
    have hitems : L'.items = L.items ++ items := by
      rw [Layout.items, hframes, ← Layout.items, extended_items, records_batchesOf, hnew.holds]
    refine ⟨⟨L', (hfenced.trans hwrite).trans hfinish, .inr hitems, fun a ha => ⟨hitems, ?_⟩⟩,
      fun hsync _ _ => ?_⟩
    · rw [finishAppend_ok ha]
      exact hpost
    · obtain ⟨s', hrun, hsync'⟩ := hok hsync
      exact ⟨_, s', hpost, hrun, hsync'⟩

theorem fileBytes_epoch (shard : UInt32) (first gen : Nat) (fs : List (Frame c)) :
    fileBytes .v2 shard first (batchesOf .v2 gen fs)
      = (EpochHeader.v2 c shard.toNat gen first fs.length (fs.flatMap Frame.bytes)).bytes ++
        fs.flatMap Frame.bytes := by
  simp [batchesOf, fileBytes, Batch.bytes, Batch.epochHeader, Batch.body, EpochHeader.withFlags,
    EpochHeader.v2]

theorem payload_le_body (hok : ∀ item ∈ items, FrameOk c item) (hitem : item ∈ items) :
    item.2.length ≤ (items.flatMap (frameBytes c)).length := by
  have hframe := length_frameBytes_ge (hok item hitem)
  have hmem : frameBytes c item ∈ items.map (frameBytes c) := mem_map_of_mem hitem
  have hle : (frameBytes c item).length ≤ (items.flatMap (frameBytes c)).length :=
    (sublist_flatten_of_mem hmem).length_le
  omega

section

variable (henv : env.InPlace) {L : Layout env.codec}

include henv

section

variable (h : Live fmt strict L s)

include h

theorem BatchBytes.frames (hne : items ≠ [])
    (hb : BatchBytes env s.manifest s.nextOffset items gen bytes)
    (hpayload : fmt = .v1 → ∀ item ∈ items, item.2.length < 2 ^ 32)
    (hbound : L.frames.length + items.length < 2 ^ 64) :
    ∃ leaderEpoch fs, NewFrames fmt L s.shardId items leaderEpoch bytes fs := by
  have hbytes := hb.bytes
  rw [h.isV2_eq, h.nextOffset] at hbytes
  have hsmall : ∀ item ∈ items, item.2.length < 2 ^ 32 := by
    cases fmt with
    | v1 => exact hpayload rfl
    | v2 =>
      intro item hitem
      exact lt_of_le_of_lt ((payload_le_body hb.ok hitem).trans hbytes.1) (by decide)
  obtain ⟨fs, hitems, hframes⟩ := exists_frames henv.lawful hb.ok hsmall
  have hlen : items.length = fs.length := by rw [← hitems, length_map]
  have hbody : items.flatMap (frameBytes env.codec) = fs.flatMap Frame.bytes := by
    rw [flatMap_def, ← hframes, flatMap_def]
  rw [hbody, hlen] at hbytes
  refine ⟨gen, fs, ?_, hitems, fun first pos => itemEntries_eq first pos hframes, ?_, ?_⟩
  · rintro rfl
    exact hne hitems.symm
  · rintro rfl
    exact ⟨hbytes.1, hlen ▸ hbound⟩
  · cases fmt with
    | v1 => rw [fileBytes_batchesOf_v1]; exact hbytes
    | v2 =>
      have hcount : fs.length ≤ maxEpochBodyBytes := (length_le_body fs).trans hbytes.1
      rw [fileBytes_epoch, hbytes.2, Nat.mod_eq_of_lt (lt_of_le_of_lt hcount (by decide))]

/-- **A batch append** adds all items or none. -/
theorem appendBatch_step (partition : UInt32) (items : List Item)
    (fence : Option Nat) (hpayload : fmt = .v1 → ∀ item ∈ items, item.2.length < 2 ^ 32)
    (hbound : L.frames.length + items.length < 2 ^ 64) :
    Appended fmt strict L s items (appendBatch env partition items fence s)
      fun out => out.map Prod.fst = messagesFrom partition L.frames.length items := by
  by_cases hne : items = []
  · subst hne
    refine ⟨L, .refl h, .inl rfl, fun out hout => ?_⟩
    cases hout
    exact ⟨(append_nil _).symm, rfl⟩
  · refine ((appendBatch_run env partition hne fence s).step h henv.archive ?_).appended
    rintro gen bytes _ ⟨hbytes, rfl⟩
    rw [stampedFrames_fst, h.nextOffset]
    exact ⟨rfl, hbytes.frames henv h hne hpayload hbound⟩

/-- **A single append**, fenced or not. -/
theorem appendFenced_step (partition : UInt32) (header : LogRecord)
    (payload : Bytes) (fence : Option Nat) (hpayload : fmt = .v1 → payload.length < 2 ^ 32)
    (hbound : L.frames.length + 1 < 2 ^ 64) :
    AppendStep fmt strict L fence (Unencodable env s.manifest [(header, payload)]) s
      [(header, payload)] (appendFenced env partition header payload fence s)
      (· = (storedMessage header payload partition L.frames.length,
        frameBytes env.codec (header, payload))) := by
  refine (appendFenced_run env partition header payload fence s).step h henv.archive ?_
  rintro gen bytes _ ⟨hbytes, rfl⟩
  rw [h.nextOffset]
  exact ⟨rfl, hbytes.frames henv h (cons_ne_nil _ _) (fun hfmt => by simpa using hpayload hfmt)
    hbound⟩

end

/-- The record of a frame encoded elsewhere, if the frame decodes. -/
def rawItems (env : Env) (frame : Bytes) : List Item :=
  match (decodeFrame env.codec frame).1 with
  | .ok item => [item]
  | .error _ => []

omit henv in
/-- The append goes ahead when no offset is expected, or the next one is; a record is found only at
an offset already taken. -/
theorem checkExpected_cases (env : Env) (partition : UInt32) (header : LogRecord)
    (expected : Option Nat) (s : Sys) :
    (∃ e, checkExpected env partition header expected s = (.error e, s)) ∨
    (∃ stored rest, expected = some stored.offset ∧ stored.offset < s.nextOffset ∧
      readRange env s.disk s.log partition stored.offset 1 = .ok (stored :: rest) ∧
      checkExpected env partition header expected s = (.ok (some stored), s)) ∨
    ((∀ want, expected = some want → want = s.nextOffset) ∧
      checkExpected env partition header expected s = (.ok none, s)) := by
  cases expected with
  | none => exact .inr (.inr ⟨nofun, rfl⟩)
  | some want =>
    unfold checkExpected
    dsimp only
    split
    · next hheld =>
      split
      · exact .inl ⟨_, rfl⟩
      · exact .inl ⟨_, rfl⟩
      · next stored rest hread =>
        split
        · next hsame =>
          obtain ⟨rfl, -⟩ := hsame
          exact .inr (.inl ⟨stored, rest, rfl, hheld, hread, rfl⟩)
        · exact .inl ⟨_, rfl⟩
    · next hheld =>
      split
      · exact .inl ⟨_, rfl⟩
      · next hwant =>
        refine .inr (.inr ⟨?_, rfl⟩)
        rintro _ ⟨⟩
        omega

omit henv in
/-- Before it appends, `append_raw_frame` may fail or find a record that stands already, and changes
nothing. -/
theorem appendRawFrame_cases (env : Env) (partition : UInt32) (frame : Bytes)
    (expected : Option Nat) (s : Sys) :
    (∃ e, appendRawFrame env partition frame expected s = (.error e, s)) ∨
    (∃ stored rest, appendRawFrame env partition frame expected s = (.ok stored, s) ∧
      expected = some stored.offset ∧ stored.offset < s.nextOffset ∧
      readRange env s.disk s.log partition stored.offset 1 = .ok (stored :: rest)) ∨
    ∃ item rest, decodeFrame env.codec frame = (.ok item, rest) ∧
      (∀ want, expected = some want → want = s.nextOffset) ∧
      appendRawFrame env partition frame expected s
        = appendReceived env partition item frame s := by
  unfold appendRawFrame
  rcases hdecode : decodeFrame env.codec frame with ⟨e | item, rest⟩
  · exact .inl ⟨_, rfl⟩
  have hlift : Prog.lift (((Except.ok item : Except RecordError Item)).mapError LogError.record) s
      = (.ok item, s) := rfl
  rw [bind_ok hlift]
  rcases checkExpected_cases env partition item.1 expected s with
    ⟨e, hcheck⟩ | ⟨stored, others, hwant, hlt, hread, hcheck⟩ | ⟨hnext, hcheck⟩
  · exact .inl ⟨e, bind_error hcheck⟩
  · exact .inr (.inl ⟨stored, others, bind_ok hcheck, hwant, hlt, hread⟩)
  · exact .inr (.inr ⟨item, rest, rfl, hnext, bind_ok hcheck⟩)

/-- **A received frame is appended.** In the V1 format the bytes are written as received, so they
must be one frame. -/
theorem appendReceived_step (h : Live fmt strict L s)
    (partition : UInt32) {rest : Bytes} (hdecode : decodeFrame env.codec frame = (.ok item, rest))
    (hexact : fmt = .v1 → rest = []) (hbound : L.frames.length + 1 < 2 ^ 64) :
    AppendStep fmt strict L none
      (fun done e => isV2 s.manifest = true ∧ Unencodable env s.manifest [item] done e) s
      [item] (appendReceived env partition item frame s)
      (· = storedMessage item.1 item.2 partition L.frames.length) := by
  refine (appendReceived_run env partition item frame s).step h henv.archive ?_
  rintro gen bytes _ ⟨hbytes, rfl⟩
  refine ⟨by rw [h.nextOffset], ?_⟩
  rw [h.isV2_eq] at hbytes
  cases fmt with
  | v1 =>
    -- the received bytes are what is written
    obtain ⟨used, hused, hread⟩ := (decodeFrame_definite env.codec).streaming _ _ _ hdecode
    obtain rfl : bytes = used := by
      rw [show bytes = frame from hbytes, hused, hexact rfl, append_nil]
    exact ⟨0, [⟨bytes, item, hread⟩], by simp, rfl, fun _ _ => rfl, nofun,
      by simp [fileBytes_batchesOf_v1]⟩
  | v2 =>
    have hbatch : BatchBytes env s.manifest s.nextOffset [item] gen bytes := hbytes
    exact hbatch.frames henv h (cons_ne_nil _ _) nofun hbound

/-- **A replicated append** of one frame. A retry finds the record it would append and changes
nothing. -/
theorem appendRawFrame_step (h : Live fmt strict L s)
    (partition : UInt32) (frame : Bytes) (expected : Option Nat)
    (hframe : fmt = .v1 → (decodeFrame env.codec frame).2 = [])
    (hbound : L.frames.length + 1 < 2 ^ 64) :
    (∃ stored want, appendRawFrame env partition frame expected s = (.ok stored, s) ∧
      expected = some want ∧ want < L.frames.length) ∨
    Appended fmt strict L s (rawItems env frame) (appendRawFrame env partition frame expected s)
      fun stored => [stored] = messagesFrom partition L.frames.length (rawItems env frame) ∧
        ∀ want, expected = some want → want = L.frames.length := by
  rcases appendRawFrame_cases env partition frame expected s with
    ⟨e, hrun⟩ | ⟨stored, others, hrun, hwant, hlt, -⟩ | ⟨item, rest, hdecode, hwant, hrun⟩
  · exact .inr (hrun ▸ .of_error (.refl h))
  · exact .inl ⟨stored, stored.offset, hrun, hwant, h.nextOffset ▸ hlt⟩
  · have hitems : rawItems env frame = [item] := by rw [rawItems, hdecode]
    rw [hdecode] at hframe
    obtain ⟨L', hstep, hadded, hpost⟩ :=
      (appendReceived_step henv h partition hdecode hframe hbound).appended
    rw [hrun, hitems]
    refine .inr ⟨L', hstep, hadded, fun stored hstored => ?_⟩
    obtain ⟨hnew, rfl⟩ := hpost stored hstored
    exact ⟨hnew, rfl, h.nextOffset ▸ hwant⟩

end

end BetterMQ
