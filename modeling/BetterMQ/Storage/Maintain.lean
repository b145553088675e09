import BetterMQ.Storage.Append

/-!
# Maintenance of a live log

The operations of `log.rs` that append nothing: timed flushes, purges, garbage collection that
finds nothing to delete, and the flush and checkpoint of `Drop`. Each keeps the log live and its
records as they were.
-/

namespace BetterMQ

open List

variable {c : Codec} {fmt : WalFormat} {strict : Bool} {L : Layout c} {s : Sys}

section

variable (h : Live fmt strict L s)

include h

theorem flushIfDue_step (due : Bool) :
    ∃ L', OpStep fmt strict L s L' (flushIfDue due s).2 ∧ L'.frames = L.frames := by
  unfold flushIfDue
  rw [getLog_bind]
  split
  · exact ⟨L, .refl h, rfl⟩
  · split
    · exact flushDurable_step h
    · exact ⟨L, .refl h, rfl⟩

theorem injectFsyncFailure_step : OpStep fmt strict L s L (injectFsyncFailure s).2 :=
  h.withLog (fun log => { log with failNextSync := true }) rfl rfl rfl rfl rfl rfl rfl
    ⟨h.index.wal, h.index.entries⟩ h.committed

theorem dropLog_step : ∃ L', OpStep fmt strict L s L' (dropLog s).2 ∧ L'.frames = L.frames := by
  obtain ⟨L', hflush, hframes⟩ := flushDurable_step h
  exact ⟨L', hflush.trans hflush.live.saveMeta_step, hframes⟩

/-! ## Purge -/

omit h in
theorem KeyMap.erase_eq_self {α : Type} {m : KeyMap α} {k : Nat} (h : m.contains k = false) :
    m.erase k = m := by
  rw [KeyMap.contains, any_eq_false] at h
  rw [KeyMap.erase, filter_eq_self]
  intro e he
  have hne := h e he
  rw [decide_eq_true_iff] at hne ⊢
  exact hne

/-- The log holds a record at `offset`, in the active WAL or in a sealed segment. -/
def PartitionLog.holds (log : PartitionLog) (offset : Nat) : Bool :=
  log.index.contains offset ||
    log.sealedIndexes.any fun g => g.firstOffset ≤ offset ∧ offset < g.lastOffset

/-- The log with `offset` tombstoned. -/
def PartitionLog.tombstone (log : PartitionLog) (offset : Nat) : PartitionLog :=
  { log with
    index := log.index.erase offset
    purgedOffsets := offset :: log.purgedOffsets
    dirty := true }

omit h in
theorem purgeOffset_eq (offset : Nat) (s : Sys) :
    purgeOffset offset s =
      if offset ∈ s.purgedOffsets ∨ s.nextOffset ≤ offset then
        (.ok false, s)
      else if s.log.holds offset then
        let s₁ := s.withLog fun log => log.tombstone offset
        (.ok true, if s.config.fsync = .always then (flushDurable s₁).2 else s₁)
      else (.ok false, s) := by
  unfold purgeOffset
  rw [getLog_bind]
  split
  · rfl
  · rw [modifyLog_bind]
    cases hcase : s.log.holds offset with
    | false =>
      -- nothing there to tombstone: the erased index is the index
      have hsame := KeyMap.erase_eq_self (Bool.or_eq_false_iff.mp hcase).1
      unfold PartitionLog.holds at hcase
      simp only [hcase, Bool.false_eq_true, if_false, Prog.pure_apply, Sys.withLog, hsame]
    | true =>
      unfold PartitionLog.holds at hcase
      by_cases hmode : s.config.fsync = .always
      · simp only [hcase, if_true, hmode]
        rfl
      · simp only [hcase, if_true, if_neg hmode]
        rfl

omit h in
theorem Indexes.erase {purged : List Nat} {xs : List (Placed c)} {next : Nat} {index : Index}
    (h : Indexes purged xs next index) (offset : Nat) :
    Indexes (offset :: purged) xs next (index.erase offset) := by
  obtain ⟨hidden, junk, hhidden, rfl, hjunk⟩ := h
  refine ⟨offset :: hidden, junk.erase offset, ?_, ?_,
    fun e he => hjunk e (mem_filter.mp he).1⟩
  · intro o ho
    rcases mem_cons.mp ho with rfl | hold
    · exact .head _
    · exact .tail _ (hhidden o hold)
  · unfold KeyMap.erase scannedIndex
    rw [filter_append, filter_map, filter_filter]
    congr 2
    refine filter_congr fun x _ => ?_
    by_cases heq : x.offset = offset <;> simp [Placed.entry, heq]

/-- **A purge** tombstones an offset; the records stay where they are. -/
theorem purgeOffset_step (offset : Nat) :
    ∃ L', OpStep fmt strict L s L' (purgeOffset offset s).2 ∧ L'.frames = L.frames := by
  rw [purgeOffset_eq]
  split
  · exact ⟨L, .refl h, rfl⟩
  · split
    · have hwal : ∀ e ∈ s.index.erase offset, e.2.path = .wal :=
        fun e he => h.index.wal e (mem_filter.mp he).1
      have hstep := h.withLog (fun log => log.tombstone offset)
        rfl rfl rfl rfl rfl rfl rfl ⟨hwal, h.index.entries.erase offset⟩ h.committed
      split
      · obtain ⟨L', hflush, hframes⟩ := flushDurable_step hstep.live
        exact ⟨L', hstep.trans hflush, hframes⟩
      · exact ⟨L, hstep, rfl⟩
    · exact ⟨L, .refl h, rfl⟩

/-! ## Garbage collection -/

/-- **A collection that finds nothing to delete** only moves its watermark. -/
theorem gcSealedBelow_step (watermark : Nat)
    (hnone : ∀ g ∈ s.sealedIndexes, collectable watermark g = false) :
    OpStep fmt strict L s L (gcSealedBelow watermark s).2 := by
  have hvictims : s.sealedIndexes.filter (collectable watermark) = [] := by
    rw [filter_eq_nil_iff]
    intro g hg
    rw [hnone g hg]
    simp
  have hkept : (s.sealedIndexes.filter fun g => !collectable watermark g)
      = s.sealedIndexes := by
    rw [filter_eq_self]
    intro g hg
    rw [hnone g hg]
    rfl
  have hmoved := h.withLog (fun log =>
    { log with
      sealedIndexes := log.sealedIndexes.filter fun g => !collectable watermark g
      gcWatermark := watermark }) rfl rfl rfl rfl rfl rfl hkept
    ⟨h.index.wal, h.index.entries⟩ h.committed
  unfold gcSealedBelow
  rw [getLog_bind]
  split
  · exact .refl h
  · rw [hvictims]
    exact hmoved.trans hmoved.live.saveMeta_step

end

end BetterMQ
