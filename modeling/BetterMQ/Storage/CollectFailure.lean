import Mathlib.Data.List.TakeWhile
import BetterMQ.Storage.Collect

/-!
# Garbage collections that fail

`gc_sealed_below` drains the list of sealed segments into a local one and puts that back at its end.
When a file cannot be removed it returns from the middle of the loop, and both lists are gone: the
open log forgets every sealed segment, deleted or not.

* **`Live.listed`** — the sealed segments of an open log are its files, in order and not empty;
* **`failed_collection_harmless_iff`** — a failed collection loses nothing exactly when it was
  refused, or no segment it may delete was the reason.
-/

namespace BetterMQ

open List

variable {env : Env} {c : Codec} {shard : UInt32} {strict : Bool} {fmt : WalFormat}

/-! ## The collection with its errors -/

/-- What goes wrong: files that exist and cannot be removed, and `meta.json` not replaced. -/
structure CollectFaults where
  remove : LogPath → Bool
  save : Bool

/-- `gc_sealed_below` on a file system with faults. The loop ends at the first file that it cannot
remove, and with it go the drained list and what was to be kept of it. -/
def gcSealedBelowFaulty (faults : CollectFaults) (watermark : Nat) : LogM Nat := do
  let log ← getLog
  let current := log.gcWatermark
  if watermark < current then
    Prog.fail (.io (.invalidInput s!"gc watermark {watermark} is below durable {current}"))
  else do
    let victims := log.sealedIndexes.filter (collectable watermark)
    let removed := victims.takeWhile fun g => !faults.remove g.path
    removeSegments removed
    if victims.any fun g => faults.remove g.path then do
      modifyLog fun log => { log with sealedIndexes := [] }
      Prog.fail (.io (.other "remove failed"))
    else do
      modifyLog fun log =>
        { log with
          sealedIndexes := log.sealedIndexes.filter fun g => !collectable watermark g
          gcWatermark := watermark }
      if faults.save then Prog.fail (.io (.other "save failed")) else saveMeta
      pure victims.length

theorem gcSealedBelowFaulty_none (watermark : Nat) :
    gcSealedBelowFaulty ⟨fun _ => false, false⟩ watermark = gcSealedBelow watermark := by
  have hall : ∀ gs : List SegmentIndex, (gs.takeWhile fun _ => true) = gs :=
    fun gs => takeWhile_eq_self_iff.mpr fun _ _ => rfl
  simp [gcSealedBelowFaulty, gcSealedBelow, hall]

/-! ## What is lost -/

/-- The sealed segments of an open log follow one another, and each has its own file. -/
structure Listed (s : Sys) : Prop where
  present : ∀ g ∈ s.sealedIndexes, ∃ f ∈ s.disk.segments, g.path = .segment f.1
  nodup : (s.sealedIndexes.map SegmentIndex.path).Nodup
  ordered : s.sealedIndexes.Pairwise fun g g' => g.lastOffset ≤ g'.firstOffset
  filled : ∀ g ∈ s.sealedIndexes, g.firstOffset < g.lastOffset
  active : ∀ e ∈ s.index, e.2.path = .wal

/-- A call at `watermark` that led from `s` to `s'` has lost nothing. -/
structure LosesNothing (env : Env) (watermark : Nat) (s s' : Sys) : Prop where
  /-- From a record in a segment still on disk, or after all of them, reads are as before. -/
  reads : ∀ (partition : UInt32) (offset max : Nat),
    ((∃ g ∈ s.sealedIndexes, g.firstOffset ≤ offset ∧ offset < g.lastOffset ∧
        s'.disk.read g.path ≠ none) ∨ ∀ g ∈ s.sealedIndexes, g.lastOffset ≤ offset) →
    readRange env s'.disk s'.log partition offset max
      = readRange env s.disk s.log partition offset max
  /-- A later call deletes what this one would have deleted without a fault. -/
  retried : (gcSealedBelow watermark s').2.disk.segments
    = (gcSealedBelow watermark s).2.disk.segments

variable {s s' : Sys} {watermark : Nat} {gs : List SegmentIndex}

section

variable (h : ¬ watermark < s.gcWatermark)

include h

theorem gcSealedBelow_ok :
    (gcSealedBelow watermark s).1
      = .ok (s.sealedIndexes.filter (collectable watermark)).length := by
  obtain ⟨s', hrun, -⟩ := removeSegments_eq (s.sealedIndexes.filter (collectable watermark)) s
  simp only [gcSealedBelow, getLog_bind, if_neg h]
  rw [Prog.bind_ok hrun]
  rfl

theorem gcSealedBelow_segments :
    (gcSealedBelow watermark s).2.disk.segments = s.disk.segments.filter fun f =>
      ∀ g ∈ s.sealedIndexes.filter (collectable watermark), g.path ≠ .segment f.1 :=
  (gcSealedBelow_files (gcSealedBelow_ok h)).2.2

end

/-- Removing the files of segments takes away those, and no others. -/
theorem read_removeSegments (h : removeSegments gs s = (.ok (), s')) (path : LogPath) :
    s'.disk.read path = if path ≠ .wal ∧ path ∈ gs.map SegmentIndex.path then none
      else s.disk.read path := by
  obtain ⟨_, hrun, -, -, hwal, hsegments⟩ := removeSegments_eq gs s
  cases h.symm.trans hrun
  cases path with
  | wal => simp [Disk.read, hwal]
  | segment name =>
    simp only [Disk.read, hsegments, find?_filter]
    split
    · next hgone =>
      obtain ⟨g, hg, hpath⟩ := mem_map.mp hgone.2
      rw [find?_eq_none.mpr]
      · rfl
      · intro f _
        simp only [decide_eq_true_eq, not_and]
        exact fun hall hname => hall g hg (hname ▸ hpath)
    · next hkept =>
      have hall : ∀ g ∈ gs, g.path ≠ .segment name :=
        fun g hg hpath => hkept ⟨nofun, hpath ▸ mem_map_of_mem hg⟩
      congr 2
      funext f
      by_cases hname : f.1 = name
      · simpa [hname] using hall
      · simp [hname]

theorem Listed.apart (h : Listed s) {g g' : SegmentIndex} (hg : g ∈ s.sealedIndexes)
    (hg' : g' ∈ s.sealedIndexes) :
    g = g' ∨ g.lastOffset ≤ g'.firstOffset ∨ g'.lastOffset ≤ g.firstOffset := by
  obtain ⟨i, hi, rfl⟩ := mem_iff_getElem.mp hg
  obtain ⟨j, hj, rfl⟩ := mem_iff_getElem.mp hg'
  have hordered := pairwise_iff_getElem.mp h.ordered
  rcases Nat.lt_trichotomy i j with hlt | rfl | hlt
  · exact .inr (.inl (hordered i j hi hj hlt))
  · exact .inl rfl
  · exact .inr (.inr (hordered j i hj hi hlt))

/-- A collection that only failed to save `meta.json` has lost nothing. -/
theorem Listed.unsaved (h : Listed s) (hmoves : ¬ watermark < s.gcWatermark)
    (hrun : removeSegments (s.sealedIndexes.filter (collectable watermark)) s = (.ok (), s')) :
    LosesNothing env watermark s (s'.withLog fun log =>
      { log with
        sealedIndexes := log.sealedIndexes.filter fun g => !collectable watermark g
        gcWatermark := watermark }) := by
  obtain ⟨_, hrun', hlog, -, -, hsegments⟩ :=
    removeSegments_eq (s.sealedIndexes.filter (collectable watermark)) s
  cases hrun.symm.trans hrun'
  have hgone : ∀ g ∈ s.sealedIndexes, collectable watermark g = true →
      s'.disk.read g.path = none := by
    intro g hg hdead
    obtain ⟨f, -, hpath⟩ := h.present g hg
    rw [read_removeSegments hrun, if_pos]
    exact ⟨by rw [hpath]; nofun, mem_map_of_mem (mem_filter.mpr ⟨hg, hdead⟩)⟩
  have hread : ∀ g ∈ s.sealedIndexes, collectable watermark g = false →
      s'.disk.read g.path = s.disk.read g.path := by
    intro g hg hstays
    rw [read_removeSegments hrun, if_neg]
    rintro ⟨-, hpath⟩
    obtain ⟨g', hg', hsame⟩ := mem_map.mp hpath
    obtain ⟨hmem, hdead⟩ := mem_filter.mp hg'
    rw [inj_on_of_nodup_map h.nodup hmem hg hsame, hstays] at hdead
    cases hdead
  constructor
  · intro partition offset max hsurvives
    -- what is deleted ends at or below the offset
    have hbelow : ∀ g ∈ s.sealedIndexes, collectable watermark g = true →
        g.lastOffset ≤ offset := by
      intro g hg hdead
      rcases hsurvives with ⟨g', hg', hfirst, hlast, hthere⟩ | hall
      · have hstays : ¬ collectable watermark g' = true :=
          fun hdead' => hthere (hgone g' hg' hdead')
        have hfilled := h.filled g hg
        unfold collectable at hdead hstays
        rw [decide_eq_true_iff] at hdead hstays
        rcases h.apart hg hg' with rfl | hbefore | hafter <;> omega
      · exact hall g hg
    have hfilter : ((s.sealedIndexes.filter fun g => !collectable watermark g).filter
        fun g => g.lastOffset > offset)
          = s.sealedIndexes.filter fun g => g.lastOffset > offset := by
      rw [filter_filter]
      refine filter_congr fun g hg => ?_
      cases hdead : collectable watermark g with
      | false => simp
      | true => simpa using hbelow g hg hdead
    rw [@readRange_congr _ _ _ s.disk]
    · simp only [readRange, Sys.withLog, hlog, hfilter]
    · intro g hg
      rw [Sys.withLog, hlog] at hg
      obtain ⟨hmem, hstays⟩ := mem_filter.mp hg
      exact hread g hmem (by simpa using hstays)
    · intro e he
      rw [Sys.withLog, hlog] at he
      rw [h.active e he]
      exact (read_removeSegments hrun .wal).trans (if_neg fun hwal => hwal.1 rfl)
  · rw [gcSealedBelow_segments hmoves, gcSealedBelow_segments (Nat.lt_irrefl watermark)]
    simp [Sys.withLog, hlog, hsegments]

theorem SealedOk.ordered {first : Nat} {ss : List (Sealed c)}
    (h : SealedOk fmt shard first ss gs) (hok : SealedFilesOk fmt first ss) :
    gs.Pairwise (fun g g' => g.lastOffset ≤ g'.firstOffset) ∧
      ∀ g ∈ gs, first ≤ g.firstOffset ∧ g.firstOffset < g.lastOffset := by
  induction ss generalizing first gs with
  | nil =>
    cases gs with
    | nil => exact ⟨.nil, nofun⟩
    | cons g gs => exact h.elim
  | cons s ss ih =>
    obtain ⟨name, bs⟩ := s
    cases gs with
    | nil => exact h.elim
    | cons g gs =>
      have hpos : 0 < (records bs).length := length_pos_iff.mpr hok.1.2
      have hfirst := h.1.firstOffset
      have hlast := h.1.lastOffset
      obtain ⟨hordered, hlater⟩ := ih h.2 hok.2
      refine ⟨pairwise_cons.mpr ⟨fun g' hg' => ?_, hordered⟩, forall_mem_cons.mpr ⟨?_, ?_⟩⟩
      · have := hlater g' hg'
        omega
      · omega
      · intro g' hg'
        have := hlater g' hg'
        omega

/-- The segments of every log that appends, rolls and reopens are listed so. -/
theorem Live.listed {L : Layout c} (h : Live fmt strict L s) : Listed s := by
  have hpaths := h.sealedIndexes.paths
  have hnames : s.disk.segments.map Prod.fst = L.sealed.map Prod.fst :=
    h.onDisk.segment_names.trans h.onDisk.names.symm
  obtain ⟨hordered, hfilled⟩ := h.sealedIndexes.ordered h.onDisk.sealedOk
  refine ⟨fun g hg => ?_, ?_, hordered, fun g hg => (hfilled g hg).2, h.index.wal⟩
  · obtain ⟨x, hx, hpath⟩ :=
      mem_map.mp (hpaths ▸ mem_map_of_mem hg)
    obtain ⟨f, hf, hname⟩ := mem_map.mp (hnames ▸ mem_map_of_mem hx)
    exact ⟨f, hf, hpath.symm.trans (congrArg _ hname.symm)⟩
  · rw [hpaths, ← Function.comp_def, ← map_map, h.onDisk.names]
    exact (segmentNames_nodup _).map fun _ _ => LogPath.segment.inj

/-- **A failed collection loses nothing exactly when** it was refused or no deletion failed. -/
theorem failed_collection_harmless_iff {faults : CollectFaults} {e : LogError} (h : Listed s)
    (herror : (gcSealedBelowFaulty faults watermark s).1 = .error e) :
    LosesNothing env watermark s (gcSealedBelowFaulty faults watermark s).2 ↔
      watermark < s.gcWatermark ∨ ∀ g ∈ s.sealedIndexes,
        collectable watermark g = true → faults.remove g.path = false := by
  set victims := s.sealedIndexes.filter (collectable watermark) with hvictims
  set removed := victims.takeWhile fun g => !faults.remove g.path with hremoved
  obtain ⟨s', hrun, hlog, -, -, hsegments⟩ := removeSegments_eq removed s
  unfold gcSealedBelowFaulty at herror ⊢
  simp only [getLog_bind, ← hvictims, ← hremoved] at herror ⊢
  by_cases hmoves : watermark < s.gcWatermark
  · rw [if_pos hmoves]
    exact iff_of_true ⟨fun _ _ _ _ => rfl, rfl⟩ (.inl hmoves)
  rw [if_neg hmoves, Prog.bind_ok hrun] at herror ⊢
  cases hany : victims.any fun g => faults.remove g.path with
  | false =>
    have hnone : ∀ g ∈ victims, faults.remove g.path = false := by simpa using hany
    have hfull : removed = victims :=
      takeWhile_eq_self_iff.mpr fun g hg => by rw [hnone g hg]; rfl
    rw [hfull] at hrun
    simp only [hany, Bool.false_eq_true, if_false, modifyLog_bind] at herror ⊢
    cases hsave : faults.save with
    | false =>
      rw [hsave] at herror
      cases herror
    | true =>
      exact iff_of_true (h.unsaved hmoves hrun)
        (.inr fun g hg hdead => hnone g (mem_filter.mpr ⟨hg, hdead⟩))
  | true =>
    obtain ⟨g, hg, hfault⟩ := any_eq_true.mp hany
    obtain ⟨hmem, hdead⟩ := mem_filter.mp hg
    refine iff_of_false (fun hlost => ?_) ?_
    · -- the file that could not be removed is there, and the log has forgotten it
      obtain ⟨f, hf, hpath⟩ := h.present g hmem
      have hkept : f ∈ s'.disk.segments := by
        rw [hsegments]
        refine mem_filter.mpr ⟨hf, decide_eq_true fun g' hg' hsame => ?_⟩
        have hg'' := (mem_filter.mp (( takeWhile_prefix _).subset hg')).1
        have hpassed := mem_takeWhile_imp hg'
        rw [inj_on_of_nodup_map h.nodup hg'' hmem (hsame.trans hpath.symm), hfault] at hpassed
        cases hpassed
      have hmoves' : ¬ watermark < s'.gcWatermark := hlog ▸ hmoves
      have hretried : (gcSealedBelow watermark (s'.withLog fun log =>
        { log with sealedIndexes := [] })).2.disk.segments = _ := hlost.retried
      rw [gcSealedBelow_segments hmoves, gcSealedBelow_segments (by exact hmoves')] at hretried
      have hgone : f ∈ s.disk.segments.filter fun f => ∀ g ∈ victims, g.path ≠ .segment f.1 := by
        rw [← hretried]
        simpa [Sys.withLog] using hkept
      exact of_decide_eq_true (mem_filter.mp hgone).2 g hg hpath
    · rintro (hrefused | hall)
      · exact hmoves hrefused
      · rw [hall g hmem hdead] at hfault
        cases hfault

/-- The first segment is deleted, and `meta.json` is not replaced. -/
theorem unsaved_collection_harmless :
    ∃ w log, LocalRun false .fresh (appends (rolling .always) 2) w ∧ w.log = some log ∧ ∃ e,
      (gcSealedBelowFaulty ⟨fun _ => false, true⟩ 1 (w.disk.sys log)).1 = .error e ∧
      LosesNothing localEnv 1 (w.disk.sys log)
        (gcSealedBelowFaulty ⟨fun _ => false, true⟩ 1 (w.disk.sys log)).2 := by
  refine Exists.imp (fun w => Exists.imp fun log => and_imp_of fun hrun => and_imp_of fun hlog =>
    Exists.imp fun e => and_of fun herror => ?_) (by decide +kernel)
  obtain ⟨L, hholds, -⟩ := World.run_holds localEnv_inPlace
    (World.fresh_holds localEnv.codec 0 false) hrun
  obtain ⟨fmt, -, hlive, -⟩ := hholds.of_open hlog
  exact (failed_collection_harmless_iff hlive.listed herror).mpr (.inr fun _ _ _ => rfl)

/-- The first segment cannot be removed: both files are still there, no record of them is read any
more, and a retry finds nothing to delete. -/
theorem stuck_segment_hides_records :
    ∃ w log, LocalRun false .fresh (appends (rolling .always) 2) w ∧ w.log = some log ∧
      let s : Sys := (w.disk.sys log)
      let r := gcSealedBelowFaulty ⟨fun path => path = .segment (segmentName 0), false⟩ 1 s
      r.1.toBool = false ∧ r.2.disk.segments = s.disk.segments ∧
        (readRange localEnv s.disk s.log 0 0 9).map List.length = .ok 2 ∧
        readRange localEnv r.2.disk r.2.log 0 0 9 = .ok [] ∧
        (gcSealedBelow 1 r.2).1 = .ok 0 ∧ (gcSealedBelow 1 r.2).2.disk.segments.length = 2 := by
  decide +kernel

end BetterMQ
