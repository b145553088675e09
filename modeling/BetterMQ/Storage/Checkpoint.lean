import BetterMQ.Storage.Durability

/-!
# Fences and tombstones across restarts

The fence generation and the tombstones live in `meta.json`, which is written on another cadence
than the WAL: by every flush in `Always` mode, but only by every 32nd flush in `Group` mode.

* **`Advances`** — what every operation does to the metadata: it only grows in memory, and what is
  saved on the way lies between what the log held before and after; past the fence, `Past` and, for
  flushing and rolling, `Quiet` say more;
* **`World.Guarded`** — the invariant: the log holds at least what is saved, and nothing tombstoned
  is indexed;
* **`flush_keeps_fences_and_purges`** — after a flush that checkpoints, every later log refuses
  lower generations and hides the purged offsets;
* **`flush_forgets_fence`** — a flush in `Group` mode that does not: a crash, and an old leader's
  append goes through.
-/

namespace BetterMQ

open List Option

variable {env : Env} {shard : UInt32} {d : Disk} {manifest : WalManifest} {s : Sys}
  {gen offset first : Nat} {log log' : PartitionLog} {e : LogError} {c : Codec} {rest : Bytes}
  {op : LogOp}

/-! ## Metadata that only grows -/

/-- No lower fence and no tombstone less. -/
structure LogMeta.Covers (mt' mt : LogMeta) : Prop where
  fence : mt.leaderGeneration ≤ mt'.leaderGeneration
  purged : mt.purgedOffsets ⊆ mt'.purgedOffsets

theorem LogMeta.Covers.of_eq {mt mt' : LogMeta}
    (hfence : mt'.leaderGeneration = mt.leaderGeneration)
    (hpurged : mt'.purgedOffsets = mt.purgedOffsets) : mt'.Covers mt :=
  ⟨hfence.ge, hpurged ▸ List.Subset.refl _⟩

theorem LogMeta.Covers.refl (mt : LogMeta) : mt.Covers mt := .of_eq rfl rfl

theorem LogMeta.Covers.trans {mt mt' mt'' : LogMeta} (h : mt''.Covers mt') (h' : mt'.Covers mt) :
    mt''.Covers mt :=
  ⟨h'.fence.trans h.fence, List.Subset.trans h'.purged h.purged⟩

/-- The `meta.json` of `d` covers `mt`. -/
def Disk.Covers (d : Disk) (mt : LogMeta) : Prop :=
  ∃ saved, d.savedMeta = some saved ∧ saved.Covers mt

/-- No tombstoned offset is in the index. -/
def Hidden (purged : List Nat) (index : Index) : Prop := ∀ e ∈ index, e.1 ∉ purged

/-- In `Always` mode, a log with nothing to flush has saved its metadata. -/
def Clean (s : Sys) : Prop :=
  s.config.fsync = .always → s.dirty = false → s.disk.Covers s.logMeta

/-- Every tombstone is below the next offset. -/
def TombstonesBelow (log : PartitionLog) : Prop :=
  ∀ offset ∈ log.purgedOffsets, offset < log.nextOffset

/-- On the way from `s` to `s'`, `d` has the `meta.json` of `s` or one from between the two. -/
def SavedBetween (s s' : Sys) (d : Disk) : Prop :=
  d.savedMeta = s.disk.savedMeta ∨
    ∃ mt, d.savedMeta = some mt ∧ mt.Covers s.logMeta ∧ s'.logMeta.Covers mt

/-- A committed high watermark below the next offset does not fall, and stays below it. -/
def CommitKept (log log' : PartitionLog) : Prop :=
  log.committedHwm ≤ log.nextOffset →
    log.committedHwm ≤ log'.committedHwm ∧ log'.committedHwm ≤ log'.nextOffset

/-- What an operation does to the metadata, in memory and on every disk it passes through. -/
structure Advances (s s' : Sys) : Prop where
  config : s'.config = s.config
  logMeta : s'.logMeta.Covers s.logMeta
  disk : SavedBetween s s' s'.disk
  trace : ∃ ds, s'.trace = s.trace ++ ds ∧ ∀ d ∈ ds, SavedBetween s s' d
  clean : Clean s → Clean s'
  below : TombstonesBelow s.log → TombstonesBelow s'.log
  hidden : TombstonesBelow s.log → Hidden s.purgedOffsets s.index →
    Hidden s'.purgedOffsets s'.index
  committed : CommitKept s.log s'.log

section Advances

variable {s s₁ s₂ : Sys}

theorem CommitKept.of_same (hhwm : log'.committedHwm = log.committedHwm)
    (hnext : log.nextOffset ≤ log'.nextOffset) : CommitKept log log' :=
  fun h => ⟨hhwm.ge, hhwm.le.trans (h.trans hnext)⟩

theorem CommitKept.refl (log : PartitionLog) : CommitKept log log := .of_same rfl (Nat.le_refl _)

theorem CommitKept.of_all (hhwm : log'.committedHwm = log.nextOffset)
    (hnext : log'.nextOffset = log.nextOffset) : CommitKept log log' :=
  fun h => ⟨hhwm ▸ h, (hhwm.trans hnext.symm).le⟩

theorem CommitKept.trans {log₁ log₂ : PartitionLog} (h₁ : CommitKept log log₁)
    (h₂ : CommitKept log₁ log₂) : CommitKept log log₂ := fun h =>
  have hfirst := h₁ h
  have hsecond := h₂ hfirst.2
  ⟨hfirst.1.trans hsecond.1, hsecond.2⟩

theorem SavedBetween.mono (h : SavedBetween s s₁ d)
    (hcovers : s₂.logMeta.Covers s₁.logMeta) : SavedBetween s s₂ d :=
  h.imp_right fun ⟨mt, hsaved, hlow, hhigh⟩ => ⟨mt, hsaved, hlow, hcovers.trans hhigh⟩

namespace Advances

theorem refl (s : Sys) : Advances s s :=
  ⟨rfl, .refl _, .inl rfl, ⟨[], by simp, by simp⟩, id, id, fun _ => id, .refl _⟩

theorem trans (h₁ : Advances s s₁) (h₂ : Advances s₁ s₂) : Advances s s₂ := by
  -- what the second step saves lies above what the first one left
  have hlate : ∀ d, SavedBetween s₁ s₂ d → SavedBetween s s₂ d := by
    rintro d (hsame | ⟨mt, hsaved, hlow, hhigh⟩)
    · have hdisk := h₁.disk.mono h₂.logMeta
      unfold SavedBetween at hdisk ⊢
      rwa [hsame]
    · exact .inr ⟨mt, hsaved, hlow.trans h₁.logMeta, hhigh⟩
  obtain ⟨ds₁, htrace₁, hds₁⟩ := h₁.trace
  obtain ⟨ds₂, htrace₂, hds₂⟩ := h₂.trace
  refine ⟨h₂.config.trans h₁.config, h₂.logMeta.trans h₁.logMeta, hlate _ h₂.disk,
    ⟨ds₁ ++ ds₂, by rw [htrace₂, htrace₁, append_assoc], ?_⟩, h₂.clean ∘ h₁.clean,
    h₂.below ∘ h₁.below, fun hbelow => h₂.hidden (h₁.below hbelow) ∘ h₁.hidden hbelow,
    h₁.committed.trans h₂.committed⟩
  intro d hd
  rcases mem_append.mp hd with hd₁ | hd₂
  · exact (hds₁ d hd₁).mono h₂.logMeta
  · exact hlate d (hds₂ d hd₂)

end Advances

end Advances

/-! ## Code past the fence -/

/-- Code past the fence keeps the fence and the tombstones. -/
structure Past (s s' : Sys) : Prop extends Advances s s' where
  fence : s'.leaderGeneration = s.leaderGeneration
  purged : s'.purgedOffsets = s.purgedOffsets

/-- Flushing and rolling append nothing, and no index entry is new. -/
structure Quiet (s s' : Sys) : Prop extends Past s s' where
  next : s'.nextOffset = s.nextOffset
  index : ∀ e ∈ s'.index, e ∈ s.index

/-- Not an error of the fence. -/
def NotStale (e : LogError) : Prop := ∀ ours stored, e ≠ .staleFence ours stored

abbrev Resting {α : Type} (s : Sys) (r : Except LogError α × Sys) : Prop :=
  Prog.Ends Quiet NotStale s r

section Operations

variable {α β : Type} {s s₁ s₂ : Sys} {f : PartitionLog → PartitionLog}

theorem Past.refl (s : Sys) : Past s s := ⟨.refl s, rfl, rfl⟩

theorem Past.trans (h₁ : Past s s₁) (h₂ : Past s₁ s₂) : Past s s₂ :=
  ⟨h₁.toAdvances.trans h₂.toAdvances, h₂.fence.trans h₁.fence, h₂.purged.trans h₁.purged⟩

theorem Quiet.refl (s : Sys) : Quiet s s := ⟨.refl s, rfl, fun _ he => he⟩

theorem Quiet.trans (h₁ : Quiet s s₁) (h₂ : Quiet s₁ s₂) : Quiet s s₂ :=
  ⟨h₁.toPast.trans h₂.toPast, h₂.next.trans h₁.next, fun e he => h₁.index e (h₂.index e he)⟩

/-! ### Single changes -/

theorem Quiet.put (hmeta : d.savedMeta = s.disk.savedMeta) : Quiet s (s.put d) := by
  refine ⟨⟨⟨rfl, .refl _, .inl hmeta, ⟨[d], rfl, ?_⟩, ?_, id, fun _ => id, .refl _⟩, rfl, rfl⟩, rfl,
    fun _ he => he⟩
  · intro d' hd
    rw [mem_singleton] at hd
    exact .inl (hd ▸ hmeta)
  · intro hclean hmode hdirty
    obtain ⟨saved, hsaved, hcovers⟩ := hclean hmode hdirty
    exact ⟨saved, hmeta.trans hsaved, hcovers⟩

theorem Quiet.saveMeta (s : Sys) : Quiet s (s.put (s.disk.saveMeta s.logMeta)) := by
  have hbetween : SavedBetween s (s.put (s.disk.saveMeta s.logMeta))
      (s.disk.saveMeta s.logMeta) := .inr ⟨s.logMeta, rfl, .refl _, .refl _⟩
  refine ⟨⟨⟨rfl, .refl _, hbetween, ⟨[_], rfl, ?_⟩, fun _ _ _ => ⟨_, rfl, .refl _⟩, id, fun _ => id,
    .refl _⟩, rfl, rfl⟩, rfl, fun _ he => he⟩
  intro d hd
  rw [mem_singleton] at hd
  exact hd ▸ hbetween

/-- A change that leaves the log dirty owes no checkpoint yet. -/
theorem Advances.dirtied (hconfig : (f s.log).config = s.config)
    (hmeta : (f s.log).logMeta.Covers s.logMeta) (hdirty : (f s.log).dirty = true)
    (hbelow : TombstonesBelow s.log → TombstonesBelow (f s.log))
    (hhidden : TombstonesBelow s.log → Hidden s.purgedOffsets s.index →
      Hidden (f s.log).purgedOffsets (f s.log).index)
    (hcommitted : CommitKept s.log (f s.log)) : Advances s (s.withLog f) := by
  refine ⟨hconfig, hmeta, .inl rfl, ⟨[], (append_nil _).symm, by simp⟩, ?_, hbelow, hhidden,
    hcommitted⟩
  intro _ _ hclear
  have hclear' : (f s.log).dirty = false := hclear
  rw [hdirty] at hclear'
  cases hclear'

section WithLog

variable (hconfig : (f s.log).config = s.config)
  (hfence : (f s.log).leaderGeneration = s.leaderGeneration)
  (hpurged : (f s.log).purgedOffsets = s.purgedOffsets)
  (hcommitted : CommitKept s.log (f s.log))
  (hdirty : (f s.log).dirty = s.dirty ∨ (f s.log).dirty = true ∨
    (s.config.fsync = .always → s.disk.Covers s.logMeta))

include hconfig hfence hpurged hcommitted hdirty

/-- A change of the log past the fence. It may clear the dirty flag once the metadata is saved, or
outside `Always` mode; a new index entry is at or past the next offset, so it is not tombstoned. -/
theorem Past.withLog (hnext : s.nextOffset ≤ (f s.log).nextOffset)
    (hindex : ∀ e ∈ (f s.log).index, e ∈ s.index ∨ s.nextOffset ≤ e.1) :
    Past s (s.withLog f) := by
  refine ⟨⟨hconfig, .of_eq hfence hpurged, .inl rfl, ⟨[], (append_nil _).symm, by simp⟩, ?_, ?_,
    ?_, hcommitted⟩, hfence, hpurged⟩
  · intro hclean hmode hclear
    have hmode' : s.config.fsync = .always := hconfig ▸ hmode
    have hclear' : (f s.log).dirty = false := hclear
    have hcovers : s.disk.Covers s.logMeta := by
      rcases hdirty with hsame | hset | hsaved
      · exact hclean hmode' (hsame ▸ hclear')
      · rw [hset] at hclear'
        cases hclear'
      · exact hsaved hmode'
    obtain ⟨saved, hsaved, hold⟩ := hcovers
    exact ⟨saved, hsaved, hold.trans (.of_eq hfence.symm hpurged.symm)⟩
  · intro hbelow offset hoffset
    exact (hbelow offset (hpurged ▸ hoffset)).trans_le hnext
  · intro hbelow hhidden e he hpurge
    have hpurge' : e.1 ∈ s.purgedOffsets := hpurged ▸ hpurge
    rcases hindex e he with hold | hnew
    · exact hhidden e hold hpurge'
    · exact absurd (hbelow _ hpurge') (Nat.not_lt.mpr hnew)

theorem Quiet.withLog (hnext : (f s.log).nextOffset = s.nextOffset)
    (hindex : ∀ e ∈ (f s.log).index, e ∈ s.index) : Quiet s (s.withLog f) :=
  ⟨.withLog hconfig hfence hpurged hcommitted hdirty hnext.ge fun e he => .inl (hindex e he), hnext,
    hindex⟩

end WithLog

/-! ### Flushing and rolling -/

theorem synced_quiet (s : Sys) : Quiet s s.synced := by
  unfold Sys.synced
  split
  · exact .put rfl
  · exact .refl s

theorem flushDurable_quiet (s : Sys) : Resting s (flushDurable s) := by
  rw [flushDurable_eq]
  split
  · exact .ok (.refl s)
  · split
    · exact .failed (.withLog rfl rfl rfl (.refl _) (.inl rfl) rfl fun e he => he) nofun
    · refine .ok ((synced_quiet s).trans ?_)
      generalize s.synced = s₁
      have hmark : Quiet s₁ (s₁.withLog fun log => { log with
          committedHwm := log.nextOffset
          flushCount := satAdd64 log.flushCount 1 }) :=
        .withLog rfl rfl rfl (.of_all rfl rfl) (.inl rfl) rfl fun e he => he
      refine hmark.trans ?_
      split
      · exact (Quiet.saveMeta _).trans (.withLog rfl rfl rfl (.refl _)
          (.inr (.inr fun _ => ⟨_, rfl, .refl _⟩)) rfl fun e he => he)
      · next hskip =>
        exact .withLog rfl rfl rfl (.refl _)
          (.inr (.inr fun hmode => absurd (.inl hmode) hskip)) rfl fun e he => he

theorem flushIfDue_quiet (due : Bool) (s : Sys) : Resting s (flushIfDue due s) := by
  unfold flushIfDue
  rw [getLog_bind]
  split
  · exact .ok (.refl s)
  · split
    · exact flushDurable_quiet s
    · exact .ok (.refl s)

theorem injectFsyncFailure_quiet (s : Sys) : Resting s (injectFsyncFailure s) :=
  .ok (.withLog rfl rfl rfl (.refl _) (.inl rfl) rfl fun _ he => he)

theorem afterWrite_quiet (s : Sys) : Resting s (afterWrite s) := by
  have hdirty : Quiet s (s.withLog fun log => { log with dirty := true }) :=
    .withLog rfl rfl rfl (.refl _) (.inr (.inl rfl)) rfl fun e he => he
  rw [afterWrite_eq]
  split
  · exact .before .trans (flushDurable_quiet _) hdirty
  · exact .ok hdirty

theorem sparsePointsV1_not_stale {len n : Nat}
    (h : sparsePointsV1 c first len n offset rest = .error e) : NotStale e := by
  induction n generalizing offset rest with
  | zero => cases h
  | succ n ih =>
    rw [sparsePointsV1] at h
    split at h
    · cases h
      exact fun _ _ heq => by cases heq
    · next rest' _ =>
      rcases cases_of_bind_eq_error h with hrest | ⟨points, -, hok⟩
      · exact ih hrest
      · cases hok

theorem sparsePointsV2_not_stale {len fuel : Nat}
    (h : sparsePointsV2 c first len fuel rest = .error e) : NotStale e := by
  induction fuel generalizing rest with
  | zero => cases h
  | succ fuel ih =>
    rw [sparsePointsV2] at h
    split at h
    · cases h
    · split at h
      · cases h
        exact fun _ _ heq => by cases heq
      · next rest' _ =>
        rcases cases_of_bind_eq_error h with hrest | ⟨points, -, hok⟩
        · exact ih hrest
        · cases hok

theorem buildSparseIndex_not_stale {path : LogPath} {last : Nat} {bytes : Bytes}
    (h : buildSparseIndex c manifest path first last bytes = .error e) : NotStale e := by
  unfold buildSparseIndex at h
  dsimp only at h
  split at h
  · rcases cases_of_bind_eq_error h with hpoints | ⟨points, -, hok⟩
    · exact sparsePointsV1_not_stale hpoints
    · cases hok
  · split at h
    · rcases cases_of_bind_eq_error h with hpoints | ⟨points, -, hok⟩
      · exact sparsePointsV2_not_stale hpoints
      · cases hok
    · cases h
      exact fun _ _ heq => by cases heq

theorem sealActive_quiet (name : FileName) (s : Sys) : Resting s (sealActive env name s) := by
  unfold sealActive
  dsimp only
  split
  · next e herror =>
    refine .failed (.refl s) ?_
    split at herror
    · split at herror
      · cases herror
        nofun
      · rcases cases_of_bind_eq_error herror with hbuild | ⟨segment, -, hok⟩
        · exact buildSparseIndex_not_stale hbuild
        · cases hok
    · cases herror
  · exact .ok (.withLog rfl rfl rfl (.refl _) (.inl rfl) rfl fun e he => (mem_filter.mp he).1)

theorem rollTail_quiet (name : FileName) (s : Sys) : Resting s (rollTail env name s) := by
  refine .bind .trans ?_ fun _ s₁ _ => ?_
  · unfold renameWal
    split
    · exact .failed (.refl s) nofun
    · exact .ok (.put rfl)
  refine .bind .trans (.ok (.withLog rfl rfl rfl (.of_same rfl (Nat.le_refl _)) (.inl rfl) rfl
    fun e he => he)) fun _ s₂ _ => ?_
  refine .bind .trans (.ok (.saveMeta s₂)) fun _ s₃ hsave => ?_
  have hs₃ : s₃ = s₂.put (s₂.disk.saveMeta s₂.logMeta) := (congrArg Prod.snd hsave).symm
  refine .bind .trans (.ok (.withLog rfl rfl rfl (.of_all rfl rfl)
    (.inr (.inr fun _ => hs₃ ▸ ⟨_, rfl, .refl _⟩)) rfl fun e he => he)) fun _ s₄ _ => ?_
  refine .bind .trans (sealActive_quiet name s₄) fun _ s₅ _ => ?_
  refine .bind .trans (.ok (.put rfl)) fun _ s₆ _ => ?_
  refine .bind .trans (.ok (.withLog rfl rfl rfl (.refl _) (.inl rfl) rfl fun e he => he))
    fun _ s₇ _ => ?_
  unfold enqueueSealedSegment
  split
  · exact .ok (.put rfl)
  · exact .ok (.refl s₇)

theorem rollIfFull_quiet (s : Sys) : Resting s (rollIfFull env s) := by
  unfold rollIfFull
  rw [getLog_bind]
  split
  · rw [rollSegment_eq]
    split
    · exact .ok (.refl s)
    · exact (rollTail_quiet _ _).before .trans (synced_quiet s)
  · exact .ok (.refl s)

theorem removeSegments_quiet (victims : List SegmentIndex) (s : Sys) :
    Resting s (removeSegments victims s) := by
  induction victims generalizing s with
  | nil => exact .ok (.refl s)
  | cons segment victims ih =>
    refine .bind .trans ?_ fun _ s' _ => ih s'
    cases segment.path with
    | segment name => exact .ok (.put rfl)
    | wal => exact .ok (.refl s)

theorem gcSealedBelow_quiet (watermark : Nat) (s : Sys) :
    Resting s (gcSealedBelow watermark s) := by
  unfold gcSealedBelow
  rw [getLog_bind]
  split
  · exact .failed (.refl s) nofun
  · refine .bind .trans (removeSegments_quiet _ s) fun _ s₁ _ => ?_
    refine .bind .trans (.ok (.withLog rfl rfl rfl (.of_same rfl (Nat.le_refl _)) (.inl rfl) rfl
      fun e he => he)) fun _ s₂ _ => ?_
    exact .bind .trans (.ok (.saveMeta s₂)) fun _ s₃ _ => .ok (.refl s₃)

/-! ### Appends -/

/-- No index entry from the next offset on. -/
def IndexBelow (log : PartitionLog) : Prop := ∀ e ∈ log.index, e.1 < log.nextOffset

theorem Quiet.indexBelow (h : Quiet s s₁) (hbelow : IndexBelow s.log) : IndexBelow s₁.log := by
  intro e he
  rw [h.next]
  exact hbelow e (h.index e he)

theorem finishAppend_quiet (env : Env) (a : α) (s : Sys) : Resting s (finishAppend env a s) :=
  .bind .trans (afterWrite_quiet s) fun _ s₁ _ =>
    .bind .trans (rollIfFull_quiet s₁) fun _ s₂ _ => .ok (.refl s₂)

theorem Accepted.advances {fence : Option Nat} {dirty : Bool} (h : Accepted fence s.log gen dirty) :
    Advances s (s.fenced gen dirty) := by
  rcases h.dirty with ⟨hgen, hdirty⟩ | ⟨-, hdirty⟩
  · have hsame : s.fenced gen dirty = s := by
      rw [hgen, hdirty]
      rfl
    exact hsame ▸ .refl s
  · exact .dirtied rfl ⟨h.le, List.Subset.refl _⟩ hdirty id (fun _ => id)
      (.of_same rfl (Nat.le_refl _))

/-- **An append behind its fence** keeps the fence and the tombstones, its errors are those of `E`
or of what follows its write, and unless it fails no index entry stands from the next offset on. -/
structure Fenced (E : List Item → LogError → Prop) (s : Sys)
    (r : Except LogError α × Sys) : Prop where
  past : Past s r.2
  error : (∀ done e, E done e → NotStale e) → ∀ e, r.1 = .error e → NotStale e
  below : r.1.toBool = true → IndexBelow s.log → IndexBelow r.2.log

section AppendRun

variable {fence : Option Nat} {items : List Item} {E : List Item → LogError → Prop}
  {P : Nat → Bytes → α → Prop} {r : Except LogError α × Sys}

theorem encoded_past (env : Env) (done : List Item) (s : Sys) : Past s (s.encoded env done) := by
  unfold Sys.encoded Sys.withIndex
  exact .withLog rfl rfl rfl (.refl _) (.inl rfl) (Nat.le_refl _) fun _ he =>
    (mem_indexItems he).imp_right fun hnew => hnew.2.1

theorem writeRecords_past (bytes : Bytes) (count : Nat) (s : Sys) :
    Past s (writeRecords bytes count s).2 := by
  have hput : Quiet s (s.put (s.disk.writeWal bytes)) := .put rfl
  refine hput.toPast.trans ?_
  rw [writeRecords, modifyDisk_bind, modifyLog_apply]
  dsimp only
  exact .withLog rfl rfl rfl (.of_same rfl (Nat.le_add_right _ _)) (.inl rfl) (Nat.le_add_right _ _)
    fun e he => .inl he

section

variable (h : AppendRun env fence items E P s r)

include h

theorem AppendRun.fenced_cases :
    (∃ gen ∈ fence, gen < s.leaderGeneration ∧
      r = (.error (.staleFence gen s.leaderGeneration), s)) ∨
    ∃ gen dirty, Accepted fence s.log gen dirty ∧ Fenced E (s.fenced gen dirty) r := by
  cases h with
  | stale hgen hlt h => exact .inl ⟨_, hgen, hlt, h⟩
  | failed haccepted he h =>
    subst h
    refine .inr ⟨_, _, haccepted, encoded_past env _ _, fun hE e' he' => ?_, nofun⟩
    cases he'
    exact hE _ _ he
  | @written gen dirty bytes a haccepted ha h =>
    subst h
    set s₁ := (s.fenced gen dirty).encoded env items
    have hfinish := finishAppend_quiet env a (writeRecords bytes items.length s₁).2
    refine .inr ⟨gen, dirty, haccepted,
      ((encoded_past env items _).trans (writeRecords_past _ _ s₁)).trans hfinish.keeps.toPast,
      fun _ => hfinish.error, fun _ hbelow => hfinish.keeps.indexBelow fun e he => ?_⟩
    rcases mem_indexItems he with hold | ⟨-, -, hlt⟩
    · exact Nat.lt_add_right _ (hbelow e hold)
    · exact hlt

theorem AppendRun.advances : Advances s r.2 := by
  rcases h.fenced_cases with ⟨gen, -, -, rfl⟩ | ⟨gen, dirty, haccepted, hfenced⟩
  · exact .refl s
  · exact haccepted.advances.trans hfenced.past.toAdvances

/-- The log is at the generation of the fence then, unless it was past it. -/
theorem AppendRun.le_generation (hgen : gen ∈ fence) (hle : s.leaderGeneration ≤ gen) :
    gen ≤ r.2.leaderGeneration := by
  rcases h.fenced_cases with ⟨gen', hgen', hlt, -⟩ | ⟨gen', dirty, haccepted, hfenced⟩
  · cases mem_unique hgen hgen'
    exact absurd hlt (Nat.not_lt.mpr hle)
  · rw [hfenced.past.fence, haccepted.gens gen hgen]
    rfl

/-- An append is refused as stale just below the generation of the log. -/
theorem AppendRun.stale_iff (hE : ∀ done e, E done e → NotStale e) :
    (∃ ours stored, r.1 = .error (.staleFence ours stored)) ↔
      ∃ gen ∈ fence, gen < s.leaderGeneration := by
  rcases h.fenced_cases with ⟨gen, hgen, hlt, rfl⟩ | ⟨gen, dirty, haccepted, hfenced⟩
  · exact ⟨fun _ => ⟨gen, hgen, hlt⟩, fun _ => ⟨_, _, rfl⟩⟩
  · constructor
    · rintro ⟨ours, stored, hstale⟩
      exact absurd rfl (hfenced.error hE _ hstale ours stored)
    · rintro ⟨gen', hgen', hlt⟩
      rw [haccepted.gens gen' hgen'] at hlt
      exact absurd hlt (Nat.not_lt.mpr haccepted.le)

end

end AppendRun

theorem Unencodable.not_stale {items : List Item} :
    ∀ done e, Unencodable env manifest items done e → NotStale e := by
  rintro done _ (⟨_, _, _, -, -, rfl⟩ | ⟨-, -, -, _, rfl⟩) <;> exact nofun

/-! ### Every operation -/

theorem purgeOffset_advances (offset : Nat) (s : Sys) : Advances s (purgeOffset offset s).2 := by
  rw [purgeOffset_eq]
  split
  · exact .refl s
  · next hnew =>
    push Not at hnew
    split
    · -- the tombstone is below the next offset, and its entry is gone
      have htomb : Advances s (s.withLog fun log => log.tombstone offset) := by
        refine Advances.dirtied rfl
          ⟨Nat.le_refl _, subset_cons_self _ _⟩ rfl ?_ ?_ (.of_same rfl (Nat.le_refl _))
        · intro hbelow
          exact forall_mem_cons.mpr ⟨hnew.2, hbelow⟩
        · intro _ hhidden e he hpurged
          obtain ⟨hold, hne⟩ := mem_filter.mp he
          rcases mem_cons.mp hpurged with heq | hmem
          · exact absurd heq (of_decide_eq_true hne)
          · exact hhidden e hold hmem
      split
      · exact htomb.trans (flushDurable_quiet _).keeps.toAdvances
      · exact htomb
    · exact .refl s

/-- **Every operation only advances the metadata.** -/
theorem LogOp.run_advances (env : Env) (op : LogOp) (s : Sys) : Advances s (op.run env s) := by
  cases op with
  | append partition header payload fence => exact (appendFenced_run env _ _ _ _ s).advances
  | appendBatch partition items fence =>
    by_cases hne : items = []
    · subst hne
      exact .refl s
    · exact (appendBatch_run env partition hne fence s).advances
  | appendRaw partition frame expected =>
    show Advances s (appendRawFrame env partition frame expected s).2
    rcases appendRawFrame_cases env partition frame expected s with
      ⟨e, hrun⟩ | ⟨stored, want, hrun, -⟩ | ⟨item, rest, -, -, hrun⟩ <;> rw [hrun]
    · exact .refl s
    · exact .refl s
    · exact (appendReceived_run env partition item frame s).advances
  | sync => exact (flushDurable_quiet s).keeps.toAdvances
  | flushIfDue due => exact (flushIfDue_quiet due s).keeps.toAdvances
  | purge offset => exact purgeOffset_advances offset s
  | injectFsyncFailure => exact (injectFsyncFailure_quiet s).keeps.toAdvances
  | gc watermark => exact (gcSealedBelow_quiet watermark s).keeps.toAdvances

theorem dropLog_advances (s : Sys) : Advances s (dropLog s).2 :=
  ((flushDurable_quiet s).keeps.trans (.saveMeta _)).toAdvances

end Operations

/-! ## What an open loads -/

/-- The `meta.json` of `d` has the fence and the tombstones of `mt`. -/
def SavesMeta (mt : LogMeta) (d : Disk) : Prop :=
  ∃ saved, d.savedMeta = some saved ∧ saved.leaderGeneration = mt.leaderGeneration ∧
    saved.purgedOffsets = mt.purgedOffsets

/-- From a directory with the metadata `mt`, file operations that keep it. -/
def KeepsMeta (mt : LogMeta) (st st' : Store) : Prop :=
  SavesMeta mt st.disk → SavesMeta mt st'.disk ∧
    ∃ ds, st'.trace = st.trace ++ ds ∧ ∀ d ∈ ds, SavesMeta mt d

section Open

variable {mt : LogMeta} {st st₁ st₂ : Store}

theorem KeepsMeta.refl (st : Store) : KeepsMeta mt st st :=
  fun h => ⟨h, [], (append_nil _).symm, by simp⟩

theorem KeepsMeta.trans (h₁ : KeepsMeta mt st st₁) (h₂ : KeepsMeta mt st₁ st₂) :
    KeepsMeta mt st st₂ := by
  intro h
  obtain ⟨hmid, ds₁, htrace₁, hds₁⟩ := h₁ h
  obtain ⟨hend, ds₂, htrace₂, hds₂⟩ := h₂ hmid
  refine ⟨hend, ds₁ ++ ds₂, by rw [htrace₂, htrace₁, append_assoc], ?_⟩
  intro d hd
  exact (mem_append.mp hd).elim (hds₁ d) (hds₂ d)

theorem KeepsMeta.put (h : SavesMeta mt st.disk → SavesMeta mt d) : KeepsMeta mt st (st.put d) := by
  intro hst
  refine ⟨h hst, [d], rfl, ?_⟩
  intro d' hd'
  rw [mem_singleton] at hd'
  exact hd' ▸ h hst

theorem loadOrCreate_keepsMeta (mt : LogMeta) (requested : UInt16) (shard : UInt32) (st : Store) :
    KeepsMeta mt st (WalManifest.loadOrCreate requested shard st).2 := by
  unfold WalManifest.loadOrCreate
  split
  · exact .refl st
  · dsimp only
    split
    · exact .refl st
    · split <;> exact .refl st
  · dsimp only
    generalize (if (st.disk.wal.any FileData.hasData ||
      st.disk.segments.any fun f => f.2.hasData) = true then walFormatV1 else requested) = version
    split
    · exact .refl st
    · exact .put id

theorem applyEffect_keepsMeta (mt : LogMeta) (now : Nat) (path : LogPath) (effect : FileEffect)
    (st : Store) : KeepsMeta mt st (st.applyEffect now path effect) := by
  cases effect with
  | keep => exact .refl st
  | truncate len => exact .put id
  | quarantine =>
    refine .put fun h => ?_
    cases path with
    | wal => exact h
    | segment name =>
      simp only [Disk.quarantine]
      split <;> exact h

theorem rebuildFromDisk_meta (env : Env) (st : Store) (now : Nat) (log : PartitionLog)
    (hfence : log.leaderGeneration = mt.leaderGeneration)
    (hpurged : log.purgedOffsets = mt.purgedOffsets) :
    KeepsMeta mt st (rebuildFromDisk env now log st).2 ∧
      ∀ log', (rebuildFromDisk env now log st).1 = .ok log' →
        log'.leaderGeneration = mt.leaderGeneration ∧
        log'.purgedOffsets = mt.purgedOffsets ∧ Hidden mt.purgedOffsets log'.index := by
  unfold rebuildFromDisk
  dsimp only
  split
  · exact ⟨applyEffect_keepsMeta _ _ _ _ st, nofun⟩
  · next base sealed index hloop =>
    have hindex : Hidden log.purgedOffsets index :=
      (rebuildSegments_entries (Q := fun _ => True) (fun _ _ _ _ hnew => hnew) (fun _ _ => trivial)
        (forall_mem_nil _) (forall_mem_nil _) hloop).1
    have hscan : Hidden log.purgedOffsets
        (scanWal env log.manifest log.purgedOffsets st.disk index base).index :=
      scanFile_entries (fun _ _ hnew => hnew) log.manifest base _ hindex
    generalize scanWal env log.manifest log.purgedOffsets st.disk index base = scan at hscan
    have heffect := applyEffect_keepsMeta mt now .wal scan.effect st
    split
    · exact ⟨heffect, nofun⟩
    · refine ⟨heffect.trans (.put fun _ => ⟨_, rfl, hfence, hpurged⟩), ?_⟩
      intro log' hlog'
      cases hlog'
      exact ⟨hfence, hpurged, hpurged ▸ hscan⟩

/-- **An open loads the fence and the tombstones that were saved**, keeps them on the disk whatever
becomes of it, and indexes no tombstoned record. -/
theorem openForShard_meta (st : Store) (env : Env) (config : PartitionLogConfig) (shard : UInt32)
    (requested : UInt16)
    (now : Nat) (hmeta : st.disk.savedMeta = some mt) :
    KeepsMeta mt st (openForShard env config shard requested now st).2 ∧
      ∀ log, (openForShard env config shard requested now st).1 = .ok log →
        log.leaderGeneration = mt.leaderGeneration ∧
        log.purgedOffsets = mt.purgedOffsets ∧ Hidden mt.purgedOffsets log.index := by
  have hcreate := loadOrCreate_keepsMeta mt requested shard st
  unfold openForShard
  generalize WalManifest.loadOrCreate requested shard st = created at hcreate
  obtain ⟨e | manifest, st₁⟩ := created
  · exact ⟨hcreate, nofun⟩
  · obtain ⟨⟨saved, hsaved, hfence, hpurged⟩, -⟩ := hcreate ⟨mt, hmeta, rfl, rfl⟩
    have hload := loadMeta_of_savedMeta env hsaved
    dsimp only at hload ⊢
    rw [hload]
    dsimp only
    have hwal : KeepsMeta mt st (st₁.put st₁.disk.createWal) := hcreate.trans (.put id)
    obtain ⟨hkeeps, hlog⟩ := rebuildFromDisk_meta env (st₁.put st₁.disk.createWal) now
      (.initial config saved manifest) hfence hpurged
    generalize rebuildFromDisk env now (.initial config saved manifest)
      (st₁.put st₁.disk.createWal) = r at hkeeps hlog
    obtain ⟨e | log, st₂⟩ := r
    · exact ⟨(hwal.trans hkeeps).trans (.put fun _ => ⟨saved, rfl, hfence, hpurged⟩), nofun⟩
    · refine ⟨hwal.trans hkeeps, ?_⟩
      intro log' hlog'
      cases hlog'
      exact hlog log rfl

end Open

/-! ## What a read shows -/

section Reads

variable {c : Codec} {purged : List Nat} {partition : UInt32} {startOffset maxMessages : Nat}

/-- No message of a tombstoned offset. -/
def Unpurged (purged : List Nat) (out : List StoredMessage) : Prop := ∀ m ∈ out, m.offset ∉ purged

variable {out out' : List StoredMessage}

theorem Unpurged.snoc (h : Unpurged purged out) (header : LogRecord) (payload : Bytes)
    (partition : UInt32) (hoffset : offset ∉ purged) :
    Unpurged purged (out ++ [storedMessage header payload partition offset]) := by
  intro m hm
  rcases mem_append.mp hm with hold | hnew
  · exact h m hold
  · rw [mem_singleton] at hnew
    exact hnew ▸ hoffset

theorem readSparseV1_unpurged (n offset : Nat) (rest : Bytes) (h : Unpurged purged out)
    (hread : readSparseV1 c purged partition startOffset maxMessages n offset rest out = .ok out') :
    Unpurged purged out' := by
  induction n generalizing offset rest out with
  | zero =>
    cases hread
    exact h
  | succ n ih =>
    unfold readSparseV1 at hread
    split at hread
    · split at hread
      · cases hread
      · refine ih _ _ ?_ hread
        split
        · next hshown => exact h.snoc _ _ _ hshown.2
        · exact h
    · cases hread
      exact h

theorem readEpochFrames_unpurged (lastOffset n offset : Nat) (rest : Bytes)
    (h : Unpurged purged out)
    (hread : readEpochFrames c purged partition startOffset maxMessages lastOffset n offset rest out
      = .ok out') : Unpurged purged out' := by
  induction n generalizing offset rest out with
  | zero =>
    cases hread
    exact h
  | succ n ih =>
    unfold readEpochFrames at hread
    split at hread
    · cases hread
    · split at hread
      · next hshown =>
        dsimp only at hread
        have hmore := fun header payload => h.snoc header payload partition hshown.2.2
        split at hread
        · cases hread
          exact hmore _ _
        · exact ih _ _ (hmore _ _) hread
      · exact ih _ _ h hread

theorem readSparseV2_unpurged (lastOffset fuel : Nat) (rest : Bytes) (h : Unpurged purged out)
    (hread : readSparseV2 c purged partition startOffset maxMessages lastOffset fuel rest out
      = .ok out') : Unpurged purged out' := by
  induction fuel generalizing rest out with
  | zero =>
    cases hread
    exact h
  | succ fuel ih =>
    unfold readSparseV2 at hread
    split at hread
    · split at hread
      · cases hread
        exact h
      · split at hread
        · cases hread
        · split at hread
          · cases hread
            exact h
          · obtain ⟨out₁, hepoch, hrest⟩ := exists_of_bind_eq_ok hread
            exact ih _ (readEpochFrames_unpurged _ _ _ _ h hepoch) hrest
    · cases hread
      exact h

theorem readSealed_unpurged (gs : List SegmentIndex) (h : Unpurged purged out)
    (hread : readSealed c purged partition startOffset maxMessages manifest d gs out = .ok out') :
    Unpurged purged out' := by
  induction gs generalizing out with
  | nil =>
    cases hread
    exact h
  | cons g gs ih =>
    obtain ⟨out₁, hsegment, hrest⟩ := exists_of_bind_eq_ok hread
    have hmid : Unpurged purged out₁ := by
      unfold readSparseSegment at hsegment
      split at hsegment
      · cases hsegment
      · split at hsegment
        · exact readSparseV2_unpurged _ _ _ h hsegment
        · exact readSparseV1_unpurged _ _ _ h hsegment
    split at hrest
    · cases hrest
      exact hmid
    · exact ih hmid hrest

theorem readActive_unpurged {index : Index} (h : Unpurged purged out) (hindex : Hidden purged index)
    (hread : readActive c d partition maxMessages index out = .ok out') : Unpurged purged out' := by
  induction index generalizing out with
  | nil =>
    cases hread
    exact h
  | cons e index ih =>
    unfold readActive at hread
    split at hread
    · cases hread
      exact h
    · obtain ⟨⟨header, payload⟩, -, hrest⟩ := exists_of_bind_eq_ok hread
      exact ih (h.snoc header payload partition (hindex e (.head _)))
        (fun e he => hindex e (.tail _ he)) hrest

/-- **A read shows no tombstoned record** that the index does not hold. -/
theorem readRange_unpurged {msgs : List StoredMessage} (hindex : Hidden log.purgedOffsets log.index)
    (hread : readRange env d log partition startOffset maxMessages = .ok msgs) :
    Unpurged log.purgedOffsets msgs := by
  obtain ⟨out, hsealed, hactive⟩ := exists_of_bind_eq_ok hread
  exact readActive_unpurged (readSealed_unpurged _ (fun m hm => absurd hm not_mem_nil) hsealed)
    (fun e he => hindex e (mem_filter.mp he).1) hactive

end Reads

/-! ## Runs -/

/-- What a restart loads is some metadata, which an open log covers, and the log shows nothing
tombstoned. -/
def World.Guarded (w : World) : Prop :=
  ∃ saved, w.disk.savedMeta = some saved ∧ ∀ log, w.log = some log →
    log.logMeta.Covers saved ∧ Clean (w.disk.sys log) ∧
      Hidden log.purgedOffsets log.index

/-- The fence and tombstones of `mt` are known: to the open log or, without one, to the disk. -/
def World.Knows (w : World) (mt : LogMeta) : Prop :=
  match w.log with
  | some log => log.logMeta.Covers mt
  | none => w.disk.Covers mt

/-- Operations are called on logs that have recovered past their tombstones. -/
def CallsBelow (w : World) : Event → Prop
  | .run (.call _) | .crashDuring (.call _) _ _ => ∀ log ∈ w.log, TombstonesBelow log
  | _ => True

section Runs

variable {w w' : World}

theorem Advances.guarded {saved : LogMeta} (h : Advances (w.disk.sys log) s)
    (hsaved : w.disk.savedMeta = some saved) (hcovers : log.logMeta.Covers saved) :
    ∀ d ∈ s.disk :: s.trace, ∃ mt, d.savedMeta = some mt ∧ mt.Covers saved ∧
      s.logMeta.Covers mt := by
  have hbetween : ∀ d, SavedBetween (w.disk.sys log) s d → ∃ mt, d.savedMeta = some mt ∧
      mt.Covers saved ∧ s.logMeta.Covers mt := by
    rintro d (hsame | ⟨mt, hmt, hlow, hhigh⟩)
    · exact ⟨saved, hsame.trans hsaved, .refl _, h.logMeta.trans hcovers⟩
    · exact ⟨mt, hmt, hlow.trans hcovers, hhigh⟩
  obtain ⟨ds, htrace, hds⟩ := h.trace
  intro d hd
  rcases mem_cons.mp hd with rfl | hmem
  · exact hbetween _ h.disk
  · rw [htrace] at hmem
    exact hbetween d (hds d hmem)

/-- **An action** keeps the invariant, never goes back in what is saved, and run to its end
forgets nothing. -/
theorem World.exec_guarded (hw : w.Guarded) {action : Action} {ds : List Disk}
    (hok : CallsBelow w (.run action)) (hexec : w.exec env shard action = some (ds, w')) :
    w'.Guarded ∧ (∀ d ∈ w'.disk :: ds, ∀ mt, w.disk.Covers mt → d.Covers mt) ∧
      ∀ mt, w.Knows mt → w'.Knows mt := by
  obtain ⟨saved, hsaved, hlog⟩ := hw
  -- a disk whose metadata covers the saved one covers what that one covers
  have hcovers : ∀ {d : Disk} {mt mt' : LogMeta}, d.savedMeta = some mt' → mt'.Covers saved →
      w.disk.Covers mt → d.Covers mt := by
    rintro d mt mt' hmt' hlow ⟨saved', hsaved', hmt⟩
    rw [hsaved] at hsaved'
    cases hsaved'
    exact ⟨mt', hmt', hlow.trans hmt⟩
  cases action with
  | openLog config requested now =>
    obtain ⟨hkeeps, hopened⟩ := openForShard_meta ⟨w.disk, []⟩ env config shard requested now hsaved
    obtain ⟨hdisk, trace, htrace, hds⟩ := hkeeps ⟨saved, hsaved, rfl, rfl⟩
    have hall : ∀ d, SavesMeta saved d → ∀ mt, w.disk.Covers mt → d.Covers mt := by
      rintro d ⟨mt', hmt', hfence, hpurged⟩ mt
      exact hcovers hmt' (.of_eq hfence hpurged)
    simp only [World.exec] at hexec
    split at hexec
    · cases hexec
    · next hnone =>
      generalize openForShard env config shard requested now ⟨w.disk, []⟩ = r
        at hopened hdisk htrace hexec
      obtain ⟨result, st⟩ := r
      have hdisks : ∀ d ∈ st.disk :: st.trace, ∀ mt, w.disk.Covers mt → d.Covers mt := by
        intro d hd
        refine hall d ?_
        rcases mem_cons.mp hd with rfl | hmem
        · exact hdisk
        · have htrace' : st.trace = trace := htrace
          exact hds d (htrace' ▸ hmem)
      obtain ⟨saved', hsaved', hfence, hpurged⟩ := hdisk
      cases result with
      | error e =>
        cases hexec
        refine ⟨⟨saved', hsaved', fun log hsome => ?_⟩, hdisks, fun mt hknown => ?_⟩
        · rw [hnone] at hsome
          cases hsome
        · unfold World.Knows at hknown ⊢
          rw [hnone] at hknown ⊢
          exact hdisks _ (.head _) mt hknown
      | ok log =>
        cases hexec
        obtain ⟨hfence', hpurged', hhidden⟩ := hopened log rfl
        refine ⟨⟨saved', hsaved', fun log' hsome => ?_⟩, hdisks, fun mt hknown => ?_⟩
        · cases hsome
          exact ⟨.of_eq (hfence'.trans hfence.symm) (hpurged'.trans hpurged.symm),
            fun _ _ => ⟨saved', hsaved', .of_eq (hfence.trans hfence'.symm)
              (hpurged.trans hpurged'.symm)⟩, hpurged' ▸ hhidden⟩
        · unfold World.Knows at hknown
          rw [hnone] at hknown
          obtain ⟨saved'', hsaved'', hmt⟩ := hknown
          rw [hsaved] at hsaved''
          cases hsaved''
          exact ⟨hfence' ▸ hmt.fence, hpurged' ▸ hmt.purged⟩
  | call op =>
    obtain ⟨log, hsome, hrun⟩ := map_eq_some_iff.mp hexec
    obtain ⟨hold, hclean, hhidden⟩ := hlog log hsome
    have hadvances := op.run_advances env (w.disk.sys log)
    have hdisks := hadvances.guarded hsaved hold
    cases hrun
    obtain ⟨mt', hmt', -, hhigh⟩ := hdisks _ (.head _)
    refine ⟨⟨mt', hmt', fun log' hsome' => ?_⟩, fun d hd mt => ?_, fun mt hknown => ?_⟩
    · cases hsome'
      exact ⟨hhigh, hadvances.clean hclean, hadvances.hidden (hok log hsome) hhidden⟩
    · obtain ⟨mt', hmt', hlow, -⟩ := hdisks d hd
      exact hcovers hmt' hlow
    · unfold World.Knows at hknown
      rw [hsome] at hknown
      exact hadvances.logMeta.trans hknown
  | close =>
    obtain ⟨log, hsome, hrun⟩ := map_eq_some_iff.mp hexec
    obtain ⟨hold, -⟩ := hlog log hsome
    have hadvances := dropLog_advances (w.disk.sys log)
    have hdisks := hadvances.guarded hsaved hold
    cases hrun
    obtain ⟨mt', hmt', -⟩ := hdisks _ (.head _)
    refine ⟨⟨mt', hmt', fun log h => by cases h⟩, fun d hd mt => ?_, fun mt hknown => ?_⟩
    · obtain ⟨mt', hmt', hlow, -⟩ := hdisks d hd
      exact hcovers hmt' hlow
    · -- the checkpoint of a close holds what the log held
      unfold World.Knows at hknown
      rw [hsome] at hknown
      exact ⟨_, rfl, hadvances.logMeta.trans hknown⟩

theorem World.step_guarded (hw : w.Guarded) {event : Event} (hok : CallsBelow w event)
    (hstep : w.step env shard event = some w') :
    w'.Guarded ∧ ∀ mt, w.disk.Covers mt → w'.disk.Covers mt := by
  cases event with
  | run action =>
    obtain ⟨⟨ds, w₁⟩, hexec, rfl⟩ := map_eq_some_iff.mp hstep
    obtain ⟨hguarded, hdisks, -⟩ := World.exec_guarded hw hok hexec
    exact ⟨hguarded, hdisks _ (.head _)⟩
  | crash keep =>
    cases hstep
    obtain ⟨saved, hsaved, -⟩ := hw
    exact ⟨⟨saved, hsaved, nofun⟩, fun mt h => h⟩
  | crashDuring action count keep =>
    obtain ⟨⟨ds, w₁⟩, hexec, hcrash⟩ := Option.bind_eq_some_iff.mp hstep
    obtain ⟨d, hd, rfl⟩ := map_eq_some_iff.mp hcrash
    have hok' : CallsBelow w (.run action) := by
      cases action <;> exact hok
    obtain ⟨-, hdisks, -⟩ := World.exec_guarded hw hok' hexec
    obtain ⟨saved, hsaved, -⟩ := hw
    have hcovers : ∀ mt, w.disk.Covers mt → d.Covers mt := by
      intro mt h
      rcases List.mem_cons.mp (mem_of_getElem? hd) with rfl | hmem
      · exact h
      · exact hdisks d (.tail _ hmem) mt h
    obtain ⟨mt', hmt', -⟩ := hcovers saved ⟨saved, hsaved, .refl _⟩
    exact ⟨⟨mt', hmt', nofun⟩, hcovers⟩

end Runs

/-! ## Flushes that checkpoint -/

/-- This flush writes `meta.json`, or has nothing new to write there. -/
def Checkpoints (d : Disk) (log : PartitionLog) : Prop :=
  log.config.fsync = .always ∨ (log.dirty = true ∧ satAdd64 log.flushCount 1 % 32 = 0) ∨
    d.Covers log.logMeta

theorem flushDurable_saves (hok : (flushDurable s).1 = .ok ()) (hclean : Clean s)
    (hcheck : Checkpoints s.disk s.log) : (flushDurable s).2.disk.Covers s.logMeta := by
  rw [flushDurable_eq] at hok ⊢
  by_cases hdirty : s.dirty = false
  · rw [if_pos hdirty]
    rcases hcheck with hmode | ⟨hdirty', -⟩ | hsaved
    · exact hclean hmode hdirty
    · rw [hdirty] at hdirty'
      cases hdirty'
    · exact hsaved
  · rw [if_neg hdirty] at hok ⊢
    by_cases hfail : s.failNextSync = true
    · rw [if_pos hfail] at hok
      cases hok
    · rw [if_neg hfail]
      dsimp only
      -- the fsync changes neither the log nor `meta.json`
      obtain ⟨hlog, hdisk⟩ := s.synced_same
      split
      · exact ⟨_, rfl, hlog ▸ .refl _⟩
      · next hskip =>
        have hskip' : ¬ (s.config.fsync = .always ∨ satAdd64 s.flushCount 1 % 32 = 0) :=
          hlog ▸ hskip
        rcases hcheck with hmode | ⟨-, hcount⟩ | ⟨saved, hsaved, hcovers⟩
        · exact absurd (.inl hmode) hskip'
        · exact absurd (.inr hcount) hskip'
        · exact ⟨saved, hdisk.trans hsaved, hcovers⟩

/-- The call carries a fence that the log accepts. -/
def LogOp.Accepts (log : PartitionLog) (gen : Nat) : LogOp → Prop
  | .append _ _ _ fence => fence = some gen ∧ log.leaderGeneration ≤ gen
  | .appendBatch _ items fence =>
    items ≠ [] ∧ fence = some gen ∧ log.leaderGeneration ≤ gen
  | _ => False

/-- The call purges a record. -/
def LogOp.Purges (s : Sys) (offset : Nat) (op : LogOp) : Prop :=
  op = .purge offset ∧ (purgeOffset offset s).1 = .ok true

theorem LogOp.Accepts.raises (env : Env) (h : op.Accepts s.log gen) :
    gen ≤ (op.run env s).leaderGeneration := by
  cases op with
  | append partition header payload fence =>
    obtain ⟨rfl, hle⟩ := h
    exact (appendFenced_run env partition header payload _ s).le_generation rfl hle
  | appendBatch partition items fence =>
    obtain ⟨hne, rfl, hle⟩ := h
    exact (appendBatch_run env partition hne _ s).le_generation rfl hle
  | _ => exact h.elim

theorem LogOp.Purges.tombstones (h : op.Purges s offset) :
    offset ∈ (op.run env s).purgedOffsets := by
  obtain ⟨rfl, hpurged⟩ := h
  show offset ∈ (purgeOffset offset s).2.purgedOffsets
  rw [purgeOffset_eq] at hpurged ⊢
  split at hpurged
  · cases hpurged
  · next hnew =>
    rw [if_neg hnew]
    split at hpurged
    · next hholds =>
      rw [if_pos hholds]
      split
      · exact (flushDurable_quiet _).keeps.logMeta.purged (.head _)
      · exact .head _
    · cases hpurged

theorem appendFenced_stale (h : gen < s.leaderGeneration) (partition : UInt32)
    (header : LogRecord) (payload : Bytes) :
    appendFenced env partition header payload (some gen) s
      = (.error (.staleFence gen s.leaderGeneration), s) := by
  rcases appendFenced_run env partition header payload (some gen) s with
    ⟨hgen, -, hrun⟩ | ⟨haccepted, -⟩ | ⟨haccepted, -⟩
  · cases hgen
    exact hrun
  · exact absurd haccepted.le (Nat.not_le.mpr (haccepted.gens gen rfl ▸ h))
  · exact absurd haccepted.le (Nat.not_le.mpr (haccepted.gens gen rfl ▸ h))

section Runs

variable {w w' : World}

theorem World.run_knows {mt : LogMeta} {actions : List Action}
    (h : Run (World.step env shard) CallsBelow w (actions.map .run) w') (hw : w.Guarded)
    (hknown : w.Knows mt) : w'.Guarded ∧ w'.Knows mt := by
  induction actions generalizing w with
  | nil =>
    cases h
    exact ⟨hw, hknown⟩
  | cons action actions ih =>
    cases h with
    | cons hok hstep rest =>
      obtain ⟨⟨ds, w₁⟩, hexec, rfl⟩ := map_eq_some_iff.mp hstep
      obtain ⟨hguarded, -, hknows⟩ := World.exec_guarded hw hok hexec
      exact ih rest hguarded (hknows mt hknown)

theorem World.run_covers (mt : LogMeta) {events : List Event}
    (h : Run (World.step env shard) CallsBelow w events w') (hw : w.Guarded)
    (hcovers : w.disk.Covers mt) : w'.Guarded ∧ w'.disk.Covers mt :=
  h.invariant (fun w => w.Guarded ∧ w.disk.Covers mt) (fun _ _ _ hinv hok hstep =>
      have hstep := World.step_guarded hinv.1 hok hstep
      ⟨hstep.1, hstep.2 mt hinv.2⟩) ⟨hw, hcovers⟩

end Runs

/-- **A flush that checkpoints makes fences and purges durable.** A call `op` is made on an open
log; the process goes on without a crash until a flush that returns `Ok` and writes `meta.json` or
finds it up to date. Then whatever happens, crashes included, every log open later refuses the
generations below one that `op` brought and shows nothing at an offset that `op` purged. -/
theorem flush_keeps_fences_and_purges {before after : List Event} {actions : List Action}
    {op : LogOp} {w₀ w₁ w₂ : World} {log₀ log₁ log₂ : PartitionLog}
    (hbefore : Run (World.step env shard) CallsBelow .fresh before w₀) (hlog₀ : w₀.log = some log₀)
    (hcalls : Run (World.step env shard) CallsBelow w₀ (.run (.call op) :: actions.map .run) w₁)
    (hlog₁ : w₁.log = some log₁) (hflush : (sync (w₁.disk.sys log₁)).1 = .ok ())
    (hcheck : Checkpoints w₁.disk log₁)
    (hafter : Run (World.step env shard) CallsBelow w₁ (.run (.call .sync) :: after) w₂)
    (hlog₂ : w₂.log = some log₂) :
    (∀ gen, op.Accepts log₀ gen → ∀ stale < gen, ∀ partition header payload,
      appendFenced env partition header payload (some stale) (w₂.disk.sys log₂)
        = (.error (.staleFence stale log₂.leaderGeneration), (w₂.disk.sys log₂))) ∧
    (∀ offset, op.Purges (w₀.disk.sys log₀) offset → ∀ partition start max msgs,
      readRange env w₂.disk log₂ partition start max = .ok msgs → ∀ m ∈ msgs,
        m.offset ≠ offset) := by
  have hfresh : World.fresh.Guarded := ⟨.empty, rfl, nofun⟩
  obtain ⟨hw₀, -⟩ := World.run_covers .empty hbefore hfresh ⟨.empty, rfl, .refl _⟩
  -- after the call, the log knows its fence and its tombstone
  set s := op.run env (w₀.disk.sys log₀)
  obtain ⟨hw₁, hknows⟩ : w₁.Guarded ∧ w₁.Knows s.logMeta := by
    cases hcalls with
    | cons hok hstep rest =>
      obtain ⟨⟨ds, wₐ⟩, hexec, rfl⟩ := map_eq_some_iff.mp hstep
      obtain ⟨hguarded, -⟩ := World.exec_guarded hw₀ hok hexec
      refine World.run_knows rest hguarded ?_
      obtain ⟨log, hlog, hrun⟩ := map_eq_some_iff.mp hexec
      rw [hlog₀] at hlog
      cases hlog
      cases hrun
      exact .refl _
  unfold World.Knows at hknows
  rw [hlog₁] at hknows
  -- the flush saves it, and what is saved stays
  obtain ⟨hw₂, saved, hsaved, hcovers⟩ : w₂.Guarded ∧ w₂.disk.Covers s.logMeta := by
    cases hafter with
    | cons hok hstep rest =>
      obtain ⟨⟨ds, wₐ⟩, hexec, rfl⟩ := map_eq_some_iff.mp hstep
      obtain ⟨hguarded, -⟩ := World.exec_guarded hw₁ hok hexec
      refine World.run_covers _ rest hguarded ?_
      obtain ⟨log, hlog, hrun⟩ := map_eq_some_iff.mp hexec
      rw [hlog₁] at hlog
      cases hlog
      cases hrun
      obtain ⟨_, _, hlogs⟩ := hw₁
      obtain ⟨saved, hsaved, hmore⟩ := flushDurable_saves hflush (hlogs log₁ hlog₁).2.1 hcheck
      exact ⟨saved, hsaved, hmore.trans hknows⟩
  obtain ⟨saved', hsaved', hlogs⟩ := hw₂
  rw [hsaved] at hsaved'
  cases hsaved'
  obtain ⟨hlog, -, hhidden⟩ := hlogs log₂ hlog₂
  have hall := hlog.trans hcovers
  refine ⟨fun gen haccepts stale hstale partition header payload => ?_,
    fun offset hpurges partition start max msgs hread m hm heq => ?_⟩
  · refine appendFenced_stale ?_ partition header payload
    exact hstale.trans_le ((haccepts.raises env).trans hall.fence)
  · refine readRange_unpurged hhidden hread m hm ?_
    rw [heq]
    exact hall.purged hpurges.tombstones

instance (w : World) (event : Event) : Decidable (CallsBelow w event) := by
  unfold CallsBelow TombstonesBelow
  split <;> infer_instance

/-- Append the record 1 with the fence 5. -/
def appendAtFive : LogOp := .append 0 (plainRecord 1) [1] (some 5)

set_option synthInstance.maxSize 2000 in
/-- In `Always` mode every flush checkpoints: after generation 5 was accepted and flushed, a crash
and a restart, generation 3 is refused. -/
theorem flush_keeps_generation_five :
    ∃ w₂ log₂, Run (World.step localEnv 0) CallsBelow .fresh
        [.run (.openLog (unrolled .always) 2 0), .run (.call appendAtFive), .run (.call .sync),
          .crash fun _ => 0, .run (.openLog (unrolled .always) 2 1)] w₂ ∧ w₂.log = some log₂ ∧
      appendFenced localEnv 0 (plainRecord 2) [2] (some 3) (w₂.disk.sys log₂)
        = (.error (.staleFence 3 log₂.leaderGeneration), (w₂.disk.sys log₂)) := by
  obtain ⟨w₀, hw₀, log₀, hlog₀, hgen, w₁, hw₁, log₁, hlog₁, hflush, hmode, w₂, hw₂,
    log₂, hlog₂, -⟩ :
      ∃ w₀, Run (World.step localEnv 0) CallsBelow .fresh
          [.run (.openLog (unrolled .always) 2 0)] w₀ ∧
        ∃ log₀, w₀.log = some log₀ ∧ log₀.leaderGeneration ≤ 5 ∧
        ∃ w₁, Run (World.step localEnv 0) CallsBelow w₀
          (.run (.call appendAtFive) :: List.map .run []) w₁ ∧
        ∃ log₁, w₁.log = some log₁ ∧ (sync (w₁.disk.sys log₁)).1 = .ok () ∧
          log₁.config.fsync = .always ∧
        ∃ w₂, Run (World.step localEnv 0) CallsBelow w₁ [.run (.call .sync),
          .crash fun _ => 0, .run (.openLog (unrolled .always) 2 1)] w₂ ∧
        ∃ log₂, w₂.log = some log₂ ∧ True := by decide +kernel
  obtain ⟨hfences, -⟩ :=
    flush_keeps_fences_and_purges hw₀ hlog₀ hw₁ hlog₁ hflush (.inl hmode) hw₂ hlog₂
  exact ⟨w₂, log₂, hw₀.append (hw₁.append hw₂), hlog₂, hfences 5 ⟨rfl, hgen⟩ 3 (by decide) 0 _ _⟩

set_option synthInstance.maxSize 2000 in
/-- In `Group` mode a flush returns `Ok` without writing `meta.json`: after a crash, generation 3
appends where generation 5 was accepted and flushed. -/
theorem flush_forgets_fence :
    ∃ w₀ w₁ w₂ log₀ log₁ log₂,
      Run (World.step localEnv 0) CallsBelow .fresh
        [.run (.openLog (unrolled .group) 2 0)] w₀ ∧ w₀.log = some log₀ ∧
      appendAtFive.Accepts log₀ 5 ∧
      Run (World.step localEnv 0) CallsBelow w₀ [.run (.call appendAtFive)] w₁ ∧
      w₁.log = some log₁ ∧ log₁.config.fsync = .group ∧
      (sync (w₁.disk.sys log₁)).1 = .ok () ∧
      Run (World.step localEnv 0) CallsBelow w₁ [.run (.call .sync), .crash fun _ => 0,
        .run (.openLog (unrolled .group) 2 1)] w₂ ∧ w₂.log = some log₂ ∧
      (appendFenced localEnv 0 (plainRecord 2) [2] (some 3)
        (w₂.disk.sys log₂)).1.toOption.isSome = true := by
  -- each state stands behind the one it follows from, and can be computed there
  simp only [exists_and_left, @exists_comm World PartitionLog, LogOp.Accepts, appendAtFive]
  decide +kernel

end BetterMQ
