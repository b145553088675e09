import BetterMQ.Storage.Durability
import Mathlib.Data.List.TakeWhile

/-!
# Repeated opens of a damaged directory

A failed open may rename the file it stopped at, and the next open finds the directory without it.
A sealed segment stays under `segments/` with another extension, at the same place of the order, so
it fails every later open again. A quarantined `active.wal` leaves the directory for good.

* **`attempt_eq`** — everything one open can do to a directory, laid out;
* **`rebuildSegments_applyEffect`** — a quarantined segment keeps its place;
* **`fails_closed_iff`** — after an open that failed by corruption, no later open hands out
  committed offsets exactly if the WAL was not quarantined or the committed records are sealed;
* **`reopen_reuses_committed_offset`** — one flipped byte in `active.wal`, two opens.
-/

namespace BetterMQ

open List Store WalManifest

variable {env : Env} {shard : UInt32} {name : FileName} {effect : FileEffect} {e : LogError}
  {index index' : Index} {path : LogPath} {bytes : Bytes}

/-! ## Names under `segments/` -/

/-- The part of a file name before its first dot. -/
def baseName (name : FileName) : FileName := name.takeWhile (· ≠ '.')

theorem takeWhile_append_cons {α : Type} {p : α → Bool} {x : α} (hx : p x = false) (l r : List α) :
    (l ++ x :: r).takeWhile p = l.takeWhile p := by
  induction l with
  | nil => simp [hx]
  | cons a l ih =>
    rw [cons_append, takeWhile_cons, takeWhile_cons, ih]

theorem baseName_append_dot (name ext : FileName) : baseName (name ++ '.' :: ext) = baseName name :=
  takeWhile_append_cons (by decide) name ext

theorem baseName_dotless (name : FileName) : baseName (baseName name) = baseName name := by
  refine takeWhile_eq_self_iff.mpr fun ch hch => ?_
  exact mem_takeWhile_imp (p := fun ch : Char => decide (ch ≠ '.')) hch

theorem dropWhile_dot {rest : FileName} {ch : Char} (h : name.dropWhile (· ≠ '.') = ch :: rest) :
    ch = '.' := by
  have hhead := head?_dropWhile_not (fun ch : Char => decide (ch ≠ '.')) name
  rw [h] at hhead
  simpa using hhead

theorem exists_extension (h : '.' ∈ name) : ∃ ext, name = baseName name ++ '.' :: ext := by
  have hsplit := takeWhile_append_dropWhile (p := fun ch : Char => decide (ch ≠ '.')) (l := name)
  cases hrest : name.dropWhile (fun ch => decide (ch ≠ '.')) with
  | nil =>
    rw [hrest, append_nil] at hsplit
    rw [← hsplit] at h
    exact absurd (mem_takeWhile_imp h) (by decide)
  | cons ch ext =>
    rw [hrest, dropWhile_dot hrest] at hsplit
    exact ⟨ext, hsplit.symm⟩

theorem withExtension_baseName (name ext : FileName) :
    '.' ∈ withExtension name ext ∧ baseName (withExtension name ext) = baseName name := by
  have hplain : '.' ∈ name ++ '.' :: ext ∧ baseName (name ++ '.' :: ext) = baseName name :=
    ⟨mem_append_right _ (.head _), baseName_append_dot name ext⟩
  unfold withExtension
  split
  · exact hplain
  · next ch stem hstem =>
    split
    · exact hplain
    · refine ⟨mem_append_right _ (.head _), ?_⟩
      -- the name is the stem, a dot and the old extension
      have hsplit := takeWhile_append_dropWhile (p := fun ch : Char => decide (ch ≠ '.'))
        (l := name.reverse)
      rw [hstem, dropWhile_dot hstem, append_cons, ← reverse_inj, reverse_append,
        reverse_append, reverse_reverse] at hsplit
      rw [baseName_append_dot, ← hsplit]
      exact (baseName_append_dot _ _).symm

theorem lt_of_baseName_lt {x y : FileName} (hx : '.' ∈ x) (hy : '.' ∈ y)
    (hne : baseName x ≠ baseName y) (h : baseName x ++ ['.'] < baseName y ++ ['.']) : x < y := by
  obtain ⟨ex, hex⟩ := exists_extension hx
  obtain ⟨ey, hey⟩ := exists_extension hy
  rw [hex, hey, append_cons, append_cons (baseName y)]
  refine append_lt_append h ?_ _ _
  -- a dot ends each part, so neither is a prefix of the other
  rintro ⟨r, hr⟩
  have hcut := congrArg baseName hr
  rw [append_assoc, List.singleton_append, baseName_append_dot, baseName_append_dot,
    baseName_dotless, baseName_dotless] at hcut
  exact hne hcut

/-- Names with different parts before the first dot are ordered by these parts. -/
theorem name_le_iff {x y : FileName} (hx : '.' ∈ x) (hy : '.' ∈ y)
    (hne : baseName x ≠ baseName y) : x ≤ y ↔ baseName x ++ ['.'] ≤ baseName y ++ ['.'] := by
  refine ⟨fun hle => ?_, fun hle => ?_⟩
  · by_contra hnot
    exact hle (lt_of_baseName_lt hy hx hne.symm (List.not_le.mp hnot))
  · by_cases hlt : baseName x ++ ['.'] < baseName y ++ ['.']
    · exact List.le_of_lt (lt_of_baseName_lt hx hy hne hlt)
    · exact absurd (List.append_cancel_right (List.le_antisymm hle (List.not_lt.mp hlt))) hne

/-- The files under `segments/` have a dot in their names and differ before it, as the segments of
a log do. -/
structure DistinctNames (files : List NamedFile) : Prop where
  dot : ∀ f ∈ files, '.' ∈ f.1
  distinct : (files.map fun f => baseName f.1).Nodup

section Order

variable {files pre post : List NamedFile} {f : NamedFile} {files' : List NamedFile}

theorem DistinctNames.perm (h : DistinctNames files) (hperm : files'.Perm files) :
    DistinctNames files' :=
  ⟨fun f hf => h.dot f (hperm.mem_iff.mp hf), (hperm.map _).nodup_iff.mpr h.distinct⟩

theorem DistinctNames.rename (h : DistinctNames (pre ++ f :: post)) (hdot : '.' ∈ name)
    (hbase : baseName name = baseName f.1) : DistinctNames (pre ++ (name, f.2) :: post) := by
  refine ⟨fun g hg => ?_, ?_⟩
  · rcases mem_append.mp hg with hpre | hrest
    · exact h.dot g (mem_append_left _ hpre)
    · rcases mem_cons.mp hrest with rfl | hpost
      · exact hdot
      · exact h.dot g (mem_append_right _ (.tail _ hpost))
  · have hdistinct := h.distinct
    rw [map_append, map_cons] at hdistinct ⊢
    rwa [hbase]

theorem DistinctNames.baseName_ne (h : DistinctNames (pre ++ f :: post)) {g : NamedFile}
    (hg : g ∈ pre ++ post) : baseName g.1 ≠ baseName f.1 := by
  have hdistinct := h.distinct
  rw [map_append, map_cons, nodup_middle, nodup_cons, ← map_append] at hdistinct
  intro heq
  exact hdistinct.1 (heq ▸ mem_map_of_mem hg)

/-- **Renaming a file behind its first dot keeps its place in the order.** -/
theorem insertionSort_rename (h : DistinctNames files)
    (hsorted : files.insertionSort (fun f g => f.1 ≤ g.1) = pre ++ f :: post) (hdot : '.' ∈ name)
    (hbase : baseName name = baseName f.1) (hperm : files'.Perm (pre ++ (name, f.2) :: post)) :
    files'.insertionSort (fun f g => f.1 ≤ g.1) = pre ++ (name, f.2) :: post := by
  have horder : (pre ++ f :: post).Pairwise fun f g => f.1 ≤ g.1 :=
    hsorted ▸ pairwise_insertionSort _ files
  have hnames : DistinctNames (pre ++ f :: post) :=
    h.perm (hsorted ▸ List.perm_insertionSort _ files)
  have hnames' := hnames.rename hdot hbase
  -- a file with another base name stands on the same side of both names
  have hdotf : '.' ∈ f.1 := hnames.dot f (mem_append_right _ (.head _))
  have hside : ∀ g ∈ pre ++ post, (g.1 ≤ name ↔ g.1 ≤ f.1) ∧ (name ≤ g.1 ↔ f.1 ≤ g.1) := by
    intro g hg
    have hne := hnames.baseName_ne hg
    have hdotg := hnames.dot g ((List.perm_middle.mem_iff).mpr (.tail _ hg))
    rw [name_le_iff hdotg hdot (hbase ▸ hne), name_le_iff hdotg hdotf hne,
      name_le_iff hdot hdotg (hbase ▸ hne.symm), name_le_iff hdotf hdotg hne.symm, hbase]
    exact ⟨Iff.rfl, Iff.rfl⟩
  have horder' : (pre ++ (name, f.2) :: post).Pairwise fun f g => f.1 ≤ g.1 := by
    rw [pairwise_append, pairwise_cons] at horder ⊢
    obtain ⟨hpre, ⟨hf, hpost⟩, hcross⟩ := horder
    refine ⟨hpre, ⟨fun g hg => ?_, hpost⟩, fun g hg g' hg' => ?_⟩
    · exact (hside g (mem_append_right _ hg)).2.mpr (hf g hg)
    · rcases mem_cons.mp hg' with rfl | hmem
      · exact (hside g (mem_append_left _ hg)).1.mpr (hcross g hg f (.head _))
      · exact hcross g hg g' (.tail _ hmem)
  refine List.Perm.eq_of_pairwise ?_ (pairwise_insertionSort _ files') horder'
    ((List.perm_insertionSort _ files').trans hperm)
  -- equal names are one file
  intro a b ha hb hab hba
  have ha' := ((List.perm_insertionSort _ files').trans hperm).mem_iff.mp ha
  exact inj_on_of_nodup_map hnames'.distinct ha' hb (congrArg baseName (List.le_antisymm hab hba))

end Order

/-! ## Scans -/

section Scan

variable {c : Codec} {purged : List Nat} {truncateTornTail : Bool}

/-- Two scans with one outcome, apart from the index and the text of an error. One that cuts a tail
off succeeds. -/
structure SameScan (a b : ScanOutcome) : Prop where
  effect : a.effect = b.effect
  result : a.result.toOption = b.result.toOption
  cut : ∀ len, a.effect = .truncate len → ∃ n, a.result = .ok n

theorem sameScan_ok {n : Nat} :
    SameScan ⟨index, effect, .ok n⟩ ⟨index', effect, .ok n⟩ := ⟨rfl, rfl, fun _ _ => ⟨n, rfl⟩⟩

theorem sameScan_error {e' : LogError} (h : ∀ len, effect ≠ .truncate len) :
    SameScan ⟨index, effect, .error e⟩ ⟨index', effect, .error e'⟩ :=
  ⟨rfl, rfl, fun len heffect => absurd heffect (h len)⟩

theorem scanV1Loop_same (path path' : LogPath) (len fuel : Nat) (index index' : Index) (next : Nat)
    (rest : Bytes) : SameScan (scanV1Loop c purged path truncateTornTail len fuel index next rest)
      (scanV1Loop c purged path' truncateTornTail len fuel index' next rest) := by
  induction fuel generalizing index index' next rest with
  | zero => exact sameScan_ok
  | succ fuel ih =>
    unfold scanV1Loop
    split
    · exact sameScan_ok
    · split
      · exact ih _ _ _ _
      · exact sameScan_ok
      · split
        · exact sameScan_error nofun
        · exact sameScan_ok

theorem scanFrames_same (path path' : LogPath) (base bodyLen count : Nat) (index index' : Index)
    (next : Nat) (rest : Bytes) :
    (scanFrames c purged path base bodyLen count index next rest).toOption.map Prod.snd
      = (scanFrames c purged path' base bodyLen count index' next rest).toOption.map Prod.snd := by
  induction count generalizing index index' next rest with
  | zero => rfl
  | succ count ih =>
    unfold scanFrames
    split
    · rfl
    · exact ih _ _ _ _

theorem scanV2Loop_same (path path' : LogPath) (shardId : UInt32) (len fuel : Nat)
    (index index' : Index) (next : Nat) (rest : Bytes) :
    SameScan (scanV2Loop c purged path truncateTornTail shardId len fuel index next rest)
      (scanV2Loop c purged path' truncateTornTail shardId len fuel index' next rest) := by
  induction fuel generalizing index index' next rest with
  | zero => exact sameScan_ok
  | succ fuel ih =>
    unfold scanV2Loop
    split
    · exact sameScan_ok
    · dsimp only
      split
      · split
        · split
          · exact sameScan_ok
          · exact sameScan_error nofun
        · split
          · exact sameScan_ok
          · exact sameScan_error nofun
      · next epoch body rest' _ =>
        split
        · exact sameScan_error nofun
        · have hframes := @scanFrames_same c purged path path'
            (len - rest.length + epochHeaderBytes) body.length epoch.recordCount index
              index' next body
          generalize scanFrames c purged path (len - rest.length + epochHeaderBytes) body.length
            epoch.recordCount index next body = frames at hframes
          generalize scanFrames c purged path' (len - rest.length + epochHeaderBytes) body.length
            epoch.recordCount index' next body = frames' at hframes
          match frames, frames', hframes with
          | .error _, .error _, _ => exact sameScan_error nofun
          | .ok (_, next₁, left), .ok (_, next₂, left'), hframes =>
            cases hframes
            dsimp only
            split
            · exact sameScan_error nofun
            · exact ih _ _ _ _

theorem scanFile_same (path path' : LogPath) (manifest : WalManifest) (index index' : Index)
    (next : Nat) (bytes : Bytes) :
    SameScan (scanFile c purged path truncateTornTail manifest index next bytes)
      (scanFile c purged path' truncateTornTail manifest index' next bytes) := by
  unfold scanFile
  dsimp only
  split
  · exact scanV1Loop_same _ _ _ _ _ _ _ _
  · split
    · exact scanV2Loop_same _ _ _ _ _ _ _ _ _
    · exact sameScan_error nofun

/-- A scan that fails cuts nothing off. -/
theorem scanFile_error_effect {manifest : WalManifest} {next : Nat}
    (h : (scanFile c purged path truncateTornTail manifest index next bytes).result = .error e)
    (cut : Nat) :
    (scanFile c purged path truncateTornTail manifest index next bytes).effect ≠ .truncate cut := by
  intro heffect
  obtain ⟨n, hn⟩ := (scanFile_same path path manifest index index next bytes).cut cut heffect
  rw [h] at hn
  cases hn

end Scan

/-! ## The segment loop -/

section Segments

variable {m : WalManifest} {purged : List Nat} {pre post files : List NamedFile}
  {f : NamedFile} {next next' : Nat} {gs gs' : List SegmentIndex} {index index' : Index}
  {e : LogError} {path : LogPath} {effect : FileEffect}

theorem rebuildSegments_cons (f : NamedFile) (files : List NamedFile)
    (next : Nat) (gs : List SegmentIndex) (index : Index) :
    rebuildSegments env m purged (f :: files) next gs index
      = (rebuildSegments env m purged [f] next gs index).bind fun r =>
          rebuildSegments env m purged files r.1 r.2.1 r.2.2 := by
  obtain ⟨name, file⟩ := f
  simp only [rebuildSegments]
  split
  · rfl
  · split
    · split <;> rfl
    · rfl

theorem rebuildSegments_append (h : rebuildSegments env m purged pre next gs index
      = .ok (next', gs', index')) (files : List NamedFile) :
    rebuildSegments env m purged (pre ++ files) next gs index
      = rebuildSegments env m purged files next' gs' index' := by
  induction pre generalizing next gs index with
  | nil =>
    cases h
    rfl
  | cons f pre ih =>
    rw [cons_append, rebuildSegments_cons]
    rw [rebuildSegments_cons] at h
    cases hfirst : rebuildSegments env m purged [f] next gs index with
    | error r =>
      rw [hfirst] at h
      cases h
    | ok r =>
      rw [hfirst] at h
      exact ih h

/-- A failed loop stopped at a first file. -/
theorem rebuildSegments_error
    (h : rebuildSegments env m purged files next gs index = .error (e, path, effect)) :
    ∃ pre f post next' gs' index', files = pre ++ f :: post ∧
      rebuildSegments env m purged pre next gs index = .ok (next', gs', index') ∧
      rebuildSegments env m purged [f] next' gs' index' = .error (e, path, effect) := by
  induction files generalizing next gs index with
  | nil => cases h
  | cons f files ih =>
    rw [rebuildSegments_cons] at h
    cases hfirst : rebuildSegments env m purged [f] next gs index with
    | error r =>
      rw [hfirst] at h
      cases h
      exact ⟨[], f, files, next, gs, index, rfl, rfl, hfirst⟩
    | ok r =>
      rw [hfirst] at h
      obtain ⟨pre, g, post, next', gs', index', rfl, hpre, hg⟩ := ih h
      refine ⟨f :: pre, g, post, next', gs', index', rfl, ?_, hg⟩
      rw [rebuildSegments_cons, hfirst]
      exact hpre

theorem buildSparseIndex_error {c : Codec} {firstOffset lastOffset : Nat}
    (h : buildSparseIndex c m path firstOffset lastOffset bytes = .error e) (path' : LogPath) :
    buildSparseIndex c m path' firstOffset lastOffset bytes = .error e := by
  have hpoints : ∀ (points : Except LogError (List SparsePoint))
    (f : List SparsePoint → SegmentIndex)
      (f' : List SparsePoint → SegmentIndex), (points >>= fun points => .ok (f points)) = .error e →
      (points >>= fun points => .ok (f' points)) = .error e := by
    rintro (e' | points) f f' h
    · exact h
    · cases h
  unfold buildSparseIndex at h ⊢
  dsimp only at h ⊢
  split at h
  · next hv1 =>
    rw [if_pos hv1]
    exact hpoints _ _ _ h
  · next hv1 =>
    rw [if_neg hv1]
    split at h
    · next hv2 =>
      rw [if_pos hv2]
      exact hpoints _ _ _ h
    · next hv2 =>
      rw [if_neg hv2]
      exact hpoints _ _ _ h

/-- A file that stops the loop does so under every name. -/
theorem rebuildSegments_single_error
    (h : rebuildSegments env m purged [f] next gs index = .error (e, path, effect)) :
    path = .segment f.1 ∧ (∀ cut, effect ≠ .truncate cut) ∧
      ∀ name, ∃ e', rebuildSegments env m purged [(name, f.2)] next gs index
        = .error (e', .segment name, effect) := by
  obtain ⟨name, file⟩ := f
  have hsame := fun name' => @scanFile_same env.codec purged false (.segment name)
    (.segment name') m
    index index next file.bytes
  simp only [rebuildSegments] at h ⊢
  cases hresult : (scanFile env.codec purged (.segment name) false m index next
    file.bytes).result with
  | error e₁ =>
    simp only [hresult] at h
    cases h
    refine ⟨rfl, scanFile_error_effect hresult, fun name' => ?_⟩
    cases hresult' : (scanFile env.codec purged (.segment name') false m index next
        file.bytes).result with
    | error e₂ =>
      rw [← (hsame name').effect]
      exact ⟨e₂, rfl⟩
    | ok next₁ =>
      have hnone := (hsame name').result
      rw [hresult, hresult'] at hnone
      cases hnone
  | ok next₁ =>
    simp only [hresult] at h
    split at h
    · next hmore =>
      split at h
      · next e₁ hbuild =>
        cases h
        refine ⟨rfl, (fun _ heq => by cases heq), fun name' => ?_⟩
        have hresult' := toOption_eq_some.mp ((hsame name').result.symm.trans (congrArg _ hresult))
        have hbuild' : buildSparseIndex env.codec m (.segment name') next next₁ file.bytes
            = .error e := buildSparseIndex_error hbuild _
        simp only [hresult', hmore, if_true, hbuild']
        exact ⟨e, rfl⟩
      · cases h
    · cases h

end Segments

/-! ## One open -/

/-- What one open is asked to do. -/
structure Attempt where
  config : PartitionLogConfig
  requestedFormat : UInt16
  now : Nat

/-- An open of the directory `d`, and what it leaves of it. -/
def attempt (env : Env) (shard : UInt32) (a : Attempt) (d : Disk) :
    Except LogError PartitionLog × Disk :=
  let r := openForShard env a.config shard a.requestedFormat a.now ⟨d, []⟩
  (r.1, r.2.disk)

/-- Apply what a scan decided about a file. -/
def Disk.applyEffect (d : Disk) (now : Nat) (path : LogPath) (effect : FileEffect) : Disk :=
  ((⟨d, []⟩ : Store).applyEffect now path effect).disk

/-- The directory as an open scans it: with its manifest, and a WAL. -/
def Disk.prepared (d : Disk) (m : WalManifest) : Disk := { d with manifest := .valid m }.createWal

theorem Store.applyEffect_disk (st : Store) (now : Nat) (path : LogPath) (effect : FileEffect) :
    (st.applyEffect now path effect).disk = st.disk.applyEffect now path effect := by
  cases effect <;> rfl

/-- An open fails because of what the directory holds, not because of what it was asked for. -/
def LogError.isCorruption : LogError → Bool
  | .io (.invalidInput _) => false
  | _ => true

/-- What `load_or_create` does: it fails and leaves the directory, whatever format is asked for if
the manifest is to blame, or the manifest is there and fits. -/
theorem loadOrCreate_cases (requested : UInt16) (shard : UInt32) (d : Disk) :
    (∃ e, loadOrCreate requested shard ⟨d, []⟩ = (.error e, ⟨d, []⟩) ∧
      ((LogError.io e).isCorruption = true → ∀ requested',
        (loadOrCreate requested' shard ⟨d, []⟩).1 = .error e)) ∨
    ∃ m st, loadOrCreate requested shard ⟨d, []⟩ = (.ok m, st) ∧
      st.disk = { d with manifest := .valid m } ∧ unsupportedFormat m.walFormatVersion = false ∧
      m.shardId = shard ∧ ∀ m', d.manifest = .valid m' → m = m' := by
  cases hmanifest : d.manifest with
  | missing =>
    simp only [loadOrCreate, hmanifest]
    -- with data there, and without
    split <;> split
    all_goals first
      | exact .inl ⟨_, rfl, fun hcorrupt => by cases hcorrupt⟩
      | exact .inr ⟨_, _, rfl, rfl, eq_false_of_ne_true (by assumption), rfl,
          fun _ heq => by cases heq⟩
  | invalid message =>
    simp only [loadOrCreate, hmanifest]
    exact .inl ⟨_, rfl, fun _ _ => rfl⟩
  | valid m =>
    simp only [loadOrCreate, hmanifest]
    split
    · exact .inl ⟨_, rfl, fun _ _ => rfl⟩
    · next hsupported =>
      split
      · exact .inl ⟨_, rfl, fun _ _ => rfl⟩
      · next hshard =>
        refine .inr ⟨m, _, rfl, ?_, eq_false_of_ne_true hsupported, not_not.mp hshard, ?_⟩
        · rw [← hmanifest]
        · exact fun m' heq => JsonFile.valid.inj heq

variable {d : Disk} {m : WalManifest}

theorem loadOrCreate_ok {requested : UInt16}
    (h : (loadOrCreate requested shard ⟨d, []⟩).1 = .ok m) :
    (loadOrCreate requested shard ⟨d, []⟩).2.disk = { d with manifest := .valid m } ∧
      unsupportedFormat m.walFormatVersion = false ∧ m.shardId = shard ∧
      ∀ m', d.manifest = .valid m' → m = m' := by
  rcases loadOrCreate_cases requested shard d with ⟨e, heq, -⟩ | ⟨m', st, heq, hfits⟩
  · rw [heq] at h
    cases h
  · rw [heq] at h ⊢
    cases h
    exact hfits

/-- **One open, laid out.** -/
theorem attempt_eq (a : Attempt) (d : Disk) :
    attempt env shard a d =
      match (loadOrCreate a.requestedFormat shard ⟨d, []⟩).1 with
      | .error e => (.error (.io e), d)
      | .ok m =>
        match env.loadMeta d with
        | .error e => (.error (.io e), { d with manifest := .valid m })
        | .ok mt =>
          match scanSegments env m mt.purgedOffsets d with
          | .error (e, path, effect) =>
            (.error e, ((d.prepared m).applyEffect a.now path effect).saveMeta mt)
          | .ok (base, gs, index) =>
            let scan := scanWal env m mt.purgedOffsets d index base
            let d' := (d.prepared m).applyEffect a.now .wal scan.effect
            match scan.result with
            | .error e => (.error e, d'.saveMeta mt)
            | .ok next =>
              (.ok (scannedLog a.config m mt base next gs scan.index
                (d'.wal.getD .empty).bytes.length),
                  d'.saveMeta { mt with nextOffset := next }) := by
  unfold attempt openForShard
  rcases loadOrCreate_cases a.requestedFormat shard d with ⟨e, heq, -⟩ | ⟨m, st, heq, hdisk, -⟩
  · rw [heq]
  · have hload : env.loadMeta st.disk = env.loadMeta d := by
      rw [hdisk]
      rfl
    rw [heq]
    dsimp only
    rw [hload]
    cases env.loadMeta d with
    | error e => exact Prod.ext rfl hdisk
    | ok mt =>
      have hprepared : st.disk.createWal = d.prepared m := by rw [hdisk, Disk.prepared]
      have hscan : scanSegments env m mt.purgedOffsets (d.prepared m)
          = scanSegments env m mt.purgedOffsets d := rfl
      have hwal : ∀ index base, scanWal env m mt.purgedOffsets (d.prepared m) index base
          = scanWal env m mt.purgedOffsets d index base := fun _ _ => rfl
      unfold rebuildFromDisk
      simp only [PartitionLog.initial, Store.put, hprepared, hscan, hwal]
      cases scanSegments env m mt.purgedOffsets d with
      | error r =>
        simp only [applyEffect_disk]
      | ok r =>
        simp only [applyEffect_disk]
        cases (scanWal env m mt.purgedOffsets d r.2.2 r.1).result with
        | error e => simp only [applyEffect_disk]
        | ok next => simp only [scannedLog, PartitionLog.initial]

variable {a : Attempt} {log : PartitionLog} {base : Nat} {mt : LogMeta}

/-- An open that succeeds got past the manifest, `meta.json` and the sealed files, and leaves the
metadata of the log in the directory. -/
theorem attempt_ok (h : (attempt env shard a d).1 = .ok log) :
    ∃ m mt r,
      (loadOrCreate a.requestedFormat shard ⟨d, []⟩).1 = .ok m ∧
      env.loadMeta d = .ok mt ∧
      scanSegments env m mt.purgedOffsets d = .ok r ∧
      (attempt env shard a d).2.logMeta = .valid log.logMeta ∧ log.dirty = false := by
  rw [attempt_eq] at h ⊢
  split at h
  · cases h
  · next m hm =>
    split at h
    · cases h
    · next mt hmt =>
      split at h
      · cases h
      · next base gs index hloop =>
        dsimp only at h
        split at h
        · cases h
        · next next hnext =>
          cases h
          refine ⟨m, mt, _, hm, hmt, hloop, ?_, rfl⟩
          simp only [hnext]
          rfl

/-! ## Directories that stay as they are -/

/-- The name `quarantine_corrupt_file` gives a segment. -/
def quarantineName (now : Nat) (name : FileName) : FileName :=
  withExtension name (['c', 'o', 'r', 'r', 'u', 'p', 't', '.'] ++ Nat.toDigits 10 now)

/-- The manifest fits and `meta.json` loads, with these tombstones. -/
structure Loads (env : Env) (shard : UInt32) (m : WalManifest) (purged : List Nat) (d : Disk) :
    Prop where
  manifest : d.manifest = .valid m
  supported : unsupportedFormat m.walFormatVersion = false
  shard : m.shardId = shard
  logMeta : ∃ mt, env.loadMeta d = .ok mt ∧
    mt.purgedOffsets = purged

/-- Directories no open gets past: an unusable manifest or `meta.json`, a sealed segment that does
not scan, or a WAL whose scan fails without a quarantine. -/
inductive Stuck (env : Env) (shard : UInt32) (d : Disk) : Prop where
  | manifest (e : IoError)
      (h : ∀ requested, (loadOrCreate requested shard ⟨d, []⟩).1 = .error e)
  | logMeta (m : WalManifest) (e : IoError) (hmanifest : d.manifest = .valid m)
      (h : env.loadMeta d = .error e)
  | segments (m : WalManifest) (purged : List Nat) (r : LogError × LogPath × FileEffect)
      (hloads : Loads env shard m purged d) (hnames : DistinctNames d.segments)
      (h : scanSegments env m purged d = .error r)
  | wal (m : WalManifest) (purged : List Nat) (base : Nat) (gs : List SegmentIndex) (index : Index)
      (e : LogError) (hloads : Loads env shard m purged d)
      (hsegments : scanSegments env m purged d = .ok (base, gs, index))
      (hresult : (scanWal env m purged d index base).result = .error e)
      (heffect : (scanWal env m purged d index base).effect = .keep)

/-- Directories with an empty WAL behind `base` sealed records. -/
def SealedOnly (env : Env) (shard : UInt32) (base : Nat) (d : Disk) : Prop :=
  ∃ m purged gs index, Loads env shard m purged d ∧
    scanSegments env m purged d = .ok (base, gs, index) ∧
    (d.wal.getD .empty).bytes = []

section Attempts

variable {a : Attempt} {d : Disk} {m : WalManifest} {purged : List Nat}

theorem Loads.loadOrCreate (h : Loads env shard m purged d) (requested : UInt16) :
    (WalManifest.loadOrCreate requested shard ⟨d, []⟩).1 = .ok m := by
  simp only [WalManifest.loadOrCreate, h.manifest, h.supported, h.shard, Bool.false_eq_true,
    if_false, ne_eq, not_true_eq_false]

theorem Disk.applyEffect_manifest (d : Disk) (now : Nat) (path : LogPath) (effect : FileEffect) :
    (d.applyEffect now path effect).manifest = d.manifest := by
  cases effect with
  | keep => rfl
  | truncate len => rfl
  | quarantine =>
    cases path with
    | wal => rfl
    | segment name =>
      show (d.quarantine now (.segment name)).manifest = d.manifest
      simp only [Disk.quarantine]
      split <;> rfl

theorem Loads.saveMeta {d' : Disk} (hmanifest : d'.manifest = .valid m)
    (hsupported : unsupportedFormat m.walFormatVersion = false) (hshard : m.shardId = shard)
    (hpurged : mt.purgedOffsets = purged) : Loads env shard m purged (d'.saveMeta mt) :=
  ⟨hmanifest, hsupported, hshard, mt, rfl, hpurged⟩

/-- The files after a quarantine: one has another name. -/
theorem quarantine_perm {pre post : List NamedFile} {f : NamedFile} {now : Nat}
    (hperm : d.segments.Perm (pre ++ f :: post)) (hnames : DistinctNames (pre ++ f :: post))
    (hbase : baseName (quarantineName now f.1) = baseName f.1) :
    (d.quarantine now (.segment f.1)).segments.Perm
      (pre ++ (quarantineName now f.1, f.2) :: post) := by
  have hnodup : (d.segments.map Prod.fst).Nodup := by
    have hbases := (hnames.perm hperm).distinct
    rw [show (fun f : NamedFile => baseName f.1) = baseName ∘ Prod.fst from rfl,
      ← map_map] at hbases
    exact hbases.of_map
  have hfind := find?_of_nodup hnodup (hperm.mem_iff.mpr (mem_append_right pre (.head _)))
  have hothers : ∀ name, baseName name = baseName f.1 →
      (pre ++ post).filter (fun g => decide (g.1 ≠ name)) = pre ++ post := by
    intro name hname
    refine filter_eq_self.mpr fun g hg => ?_
    rw [decide_eq_true_iff]
    rintro rfl
    exact hnames.baseName_ne hg hname
  have hremoved : (d.segments.filter fun g => decide (g.1 ≠ f.1)).Perm (pre ++ post) := by
    refine (hperm.filter _).trans (List.Perm.of_eq ?_)
    rw [filter_append, filter_cons_of_neg (by simp), ← filter_append]
    exact hothers f.1 rfl
  have hrest := hremoved.filter fun g => decide (g.1 ≠ quarantineName now f.1)
  rw [hothers _ hbase] at hrest
  have hmiddle : ([(quarantineName now f.1, f.2)] ++ (pre ++ post)).Perm
      (pre ++ (quarantineName now f.1, f.2) :: post) := by
    rw [singleton_append]
    exact perm_middle.symm
  simp only [Disk.quarantine, hfind, Disk.removeSegment, Disk.putSegment]
  exact (hrest.append_right _).trans (perm_append_comm.trans hmiddle)

/-- **A quarantined segment keeps its place**, so the segments fail again. -/
theorem rebuildSegments_applyEffect (hnames : DistinctNames d.segments)
    (h : scanSegments env m purged d = .error (e, path, effect)) (now : Nat) :
    DistinctNames (d.applyEffect now path effect).segments ∧
      ∃ r, scanSegments env m purged (d.applyEffect now path effect) = .error r := by
  obtain ⟨pre, f, post, next, gs, index, hsorted, hpre, hf⟩ := rebuildSegments_error h
  obtain ⟨rfl, hcut, hrename⟩ := rebuildSegments_single_error hf
  cases effect with
  | keep => exact ⟨hnames, _, h⟩
  | truncate len => exact absurd rfl (hcut len)
  | quarantine =>
    set name := quarantineName now f.1
    obtain ⟨hdot, hbase⟩ : '.' ∈ name ∧ baseName name = baseName f.1 := withExtension_baseName f.1 _
    have hperm : (pre ++ f :: post).Perm d.segments :=
      hsorted ▸ perm_insertionSort _ d.segments
    have hnames' : DistinctNames (pre ++ f :: post) := hnames.perm hperm
    have hsegments : (d.quarantine now (.segment f.1)).segments.Perm
        (pre ++ (name, f.2) :: post) := quarantine_perm hperm.symm hnames' hbase
    have hsorted' : (d.quarantine now (.segment f.1)).sortedSegments
        = pre ++ (name, f.2) :: post := insertionSort_rename hnames hsorted hdot hbase hsegments
    refine ⟨(hnames'.rename hdot hbase).perm hsegments, ?_⟩
    show ∃ r, scanSegments env m purged (d.quarantine now (.segment f.1)) = .error r
    obtain ⟨e', he'⟩ := hrename name
    rw [scanSegments, hsorted', rebuildSegments_append hpre, rebuildSegments_cons, he']
    exact ⟨_, rfl⟩

theorem Stuck.attempt (h : Stuck env shard d) (a : Attempt) :
    (∃ e, (attempt env shard a d).1 = .error e) ∧ Stuck env shard (attempt env shard a d).2 := by
  rw [attempt_eq]
  cases h with
  | manifest e h =>
    rw [h]
    exact ⟨⟨_, rfl⟩, .manifest e h⟩
  | logMeta m e hmanifest h =>
    cases (loadOrCreate a.requestedFormat shard ⟨d, []⟩).1 with
    | error e' => exact ⟨⟨_, rfl⟩, .logMeta m e hmanifest h⟩
    | ok m' =>
      simp only [h]
      exact ⟨⟨_, rfl⟩, .logMeta m' e rfl h⟩
  | segments m purged r hloads hnames h =>
    obtain ⟨mt, hmt, rfl⟩ := hloads.logMeta
    obtain ⟨e, path, effect⟩ := r
    rw [hloads.loadOrCreate]
    simp only [hmt, h]
    refine ⟨⟨_, rfl⟩, ?_⟩
    obtain ⟨hnames', r, hr⟩ := rebuildSegments_applyEffect (d := d.prepared m) hnames h a.now
    refine .segments m mt.purgedOffsets r
      (.saveMeta ?_ hloads.supported hloads.shard rfl) hnames' hr
    exact Disk.applyEffect_manifest _ _ _ _
  | wal m purged base gs index e hloads hsegments hresult heffect =>
    obtain ⟨mt, hmt, rfl⟩ := hloads.logMeta
    rw [hloads.loadOrCreate]
    simp only [hmt, hsegments, hresult, heffect]
    refine ⟨⟨_, rfl⟩, ?_⟩
    exact .wal m mt.purgedOffsets base gs index e
      (.saveMeta rfl hloads.supported hloads.shard rfl) hsegments hresult heffect

theorem scanFile_nil (hsupported : unsupportedFormat m.walFormatVersion = false) (path : LogPath)
    (truncateTornTail : Bool) (index : Index) (next : Nat) :
    scanFile env.codec purged path truncateTornTail m index next []
      = ⟨index, .keep, .ok next⟩ := by
  unfold scanFile
  dsimp only
  split
  · rfl
  · next hv1 =>
    split
    · rfl
    · next hv2 =>
      exact absurd ⟨hv1, hv2⟩ (of_decide_eq_false hsupported)

theorem SealedOnly.attempt (h : SealedOnly env shard base d) (a : Attempt) :
    (∃ log, (attempt env shard a d).1 = .ok log ∧ log.nextOffset = base) ∧
      SealedOnly env shard base (attempt env shard a d).2 := by
  obtain ⟨m, purged, gs, index, hloads, hsegments, hwal⟩ := h
  obtain ⟨mt, hmt, rfl⟩ := hloads.logMeta
  have hscan := @scanFile_nil env m mt.purgedOffsets hloads.supported .wal true index base
  rw [attempt_eq, hloads.loadOrCreate]
  simp only [hmt, hsegments, scanWal, hwal, hscan]
  exact ⟨⟨_, rfl, rfl⟩, m, mt.purgedOffsets, gs, index,
    .saveMeta rfl hloads.supported hloads.shard rfl, hsegments, hwal⟩

end Attempts

/-! ## Any number of opens -/

/-- The directory after a number of opens, each closed again. -/
def afterAttempts (env : Env) (shard : UInt32) (d : Disk) (as : List Attempt) : Disk :=
  as.foldl (fun d a => (attempt env shard a d).2) d

theorem attempt_close (h : (attempt env shard a d).1 = .ok log) :
    (dropLog ⟨⟨(attempt env shard a d).2, []⟩, log⟩).2.disk = (attempt env shard a d).2 := by
  obtain ⟨-, -, -, -, -, -, hsaved, hclean⟩ := attempt_ok h
  rw [dropLog, flushDurable_eq, if_pos hclean]
  show (attempt env shard a d).2.saveMeta log.logMeta = (attempt env shard a d).2
  rw [Disk.saveMeta, ← hsaved]

/-- However often the directory is opened, no open succeeds with fewer than `committed` records. -/
def FailsClosed (env : Env) (shard : UInt32) (committed : Nat) (d : Disk) : Prop :=
  ∀ as a log, (attempt env shard a (afterAttempts env shard d as)).1 = .ok log →
    committed ≤ log.nextOffset

theorem Stuck.failsClosed (h : Stuck env shard d) (committed : Nat) :
    FailsClosed env shard committed d := by
  intro as a log hlog
  induction as generalizing d with
  | nil =>
    obtain ⟨⟨e, he⟩, -⟩ := h.attempt a
    rw [show afterAttempts env shard d [] = d from rfl, he] at hlog
    cases hlog
  | cons a' as ih => exact ih (h.attempt a').2 hlog

theorem SealedOnly.failsClosed_iff (h : SealedOnly env shard base d) (a : Attempt)
    (committed : Nat) : FailsClosed env shard committed d ↔ committed ≤ base := by
  constructor
  · intro hclosed
    obtain ⟨⟨log, hlog, hnext⟩, -⟩ := h.attempt a
    exact hnext ▸ hclosed [] a log hlog
  · intro hle as a log hlog
    induction as generalizing d with
    | nil =>
      obtain ⟨⟨log', hlog', hnext⟩, -⟩ := h.attempt a
      rw [show afterAttempts env shard d [] = d from rfl, hlog'] at hlog
      cases hlog
      exact hnext ▸ hle
    | cons a' as ih => exact ih (h.attempt a').2 hlog

/-- The open finds `base` records in the sealed segments, and an `active.wal` that its scan
quarantines. -/
def QuarantinesWal (env : Env) (shard : UInt32) (a : Attempt) (d : Disk) (base : Nat) : Prop :=
  ∃ m mt gs index,
    (loadOrCreate a.requestedFormat shard ⟨d, []⟩).1 = .ok m ∧
    env.loadMeta d = .ok mt ∧
    scanSegments env m mt.purgedOffsets d = .ok (base, gs, index) ∧
    (scanWal env m mt.purgedOffsets d index base).effect = .quarantine

/-- There is one scan of the WAL. -/
theorem QuarantinesWal.of_scan {base' : Nat} {gs : List SegmentIndex}
    (hm : (loadOrCreate a.requestedFormat shard ⟨d, []⟩).1 = .ok m)
    (hmt : env.loadMeta d = .ok mt)
    (hloop : scanSegments env m mt.purgedOffsets d = .ok (base, gs, index))
    (h : QuarantinesWal env shard a d base') :
    base = base' ∧ (scanWal env m mt.purgedOffsets d index base).effect = .quarantine := by
  obtain ⟨m', mt', gs', index', hm', hmt', hloop', heffect⟩ := h
  cases hm.symm.trans hm'
  cases hmt.symm.trans hmt'
  cases hloop.symm.trans hloop'
  exact ⟨rfl, heffect⟩

/-- **What a failed open leaves**: a directory every later open fails on, or one whose WAL it has
quarantined. -/
theorem attempt_fails (hnames : DistinctNames d.segments)
    (hfail : (attempt env shard a d).1 = .error e) (hcorrupt : e.isCorruption = true) :
    (Stuck env shard (attempt env shard a d).2 ∧ ∀ base, ¬ QuarantinesWal env shard a d base) ∨
      ∃ base, QuarantinesWal env shard a d base ∧
        SealedOnly env shard base (attempt env shard a d).2 := by
  rw [attempt_eq] at hfail ⊢
  rcases loadOrCreate_cases a.requestedFormat shard d with
    ⟨e', heq, hblame⟩ | ⟨m, st, heq, -, hsupported, hshard, -⟩
  · rw [heq] at hfail ⊢
    cases hfail
    refine .inl ⟨.manifest e' (hblame hcorrupt), ?_⟩
    rintro base ⟨m, mt, gs, index, hm, -⟩
    rw [heq] at hm
    cases hm
  · have hmanifest := congrArg Prod.fst heq
    rw [hmanifest] at hfail ⊢
    cases hmeta : env.loadMeta d with
    | error e' =>
      refine .inl ⟨.logMeta m e' rfl hmeta, ?_⟩
      rintro base ⟨m', mt, gs, index, -, hmt, -⟩
      rw [hmeta] at hmt
      cases hmt
    | ok mt =>
      simp only [hmeta] at hfail ⊢
      cases hloop : scanSegments env m mt.purgedOffsets d with
      | error r =>
        obtain ⟨e', path, effect⟩ := r
        obtain ⟨hnames', r, hr⟩ :=
          rebuildSegments_applyEffect (d := d.prepared m) hnames hloop a.now
        refine .inl ⟨.segments m mt.purgedOffsets r
          (.saveMeta (Disk.applyEffect_manifest _ _ _ _) hsupported hshard rfl) hnames' hr, ?_⟩
        rintro base ⟨m', mt', gs, index, hm', hmt', hloop', -⟩
        cases hmanifest.symm.trans hm'
        cases hmeta.symm.trans hmt'
        cases hloop.symm.trans hloop'
      | ok r =>
        obtain ⟨base, gs, index⟩ := r
        simp only [hloop] at hfail ⊢
        cases hresult : (scanWal env m mt.purgedOffsets d index base).result with
        | ok next =>
          simp only [hresult] at hfail
          cases hfail
        | error e' =>
          cases heffect : (scanWal env m mt.purgedOffsets d index base).effect with
          | keep =>
            refine .inl ⟨.wal m mt.purgedOffsets base gs index e'
              (.saveMeta rfl hsupported hshard rfl) hloop hresult heffect, fun base' hwal => ?_⟩
            cases heffect.symm.trans (hwal.of_scan hmanifest hmeta hloop).2
          | truncate cut => exact absurd heffect (scanFile_error_effect hresult cut)
          | quarantine =>
            exact .inr ⟨base, ⟨m, mt, gs, index, hmanifest, hmeta, hloop, heffect⟩, m,
              mt.purgedOffsets, gs, index, .saveMeta rfl hsupported hshard rfl, hloop, rfl⟩

/-- **When corruption fails closed.** An open fails because of what the directory holds. However
many opens follow, none succeeds with fewer than `committed` records, exactly if the first one did
not quarantine `active.wal` or the sealed segments hold that many. -/
theorem fails_closed_iff {d : Disk} (hnames : DistinctNames d.segments) {a : Attempt} {e : LogError}
    (hfail : (attempt env shard a d).1 = .error e) (hcorrupt : e.isCorruption = true)
    (committed : Nat) :
    FailsClosed env shard committed (attempt env shard a d).2 ↔
      ∀ base, QuarantinesWal env shard a d base → committed ≤ base := by
  rcases attempt_fails hnames hfail hcorrupt with ⟨hstuck, hnone⟩ | ⟨base, hwal, hsealed⟩
  · exact iff_of_true (hstuck.failsClosed committed) fun base hbase => absurd hbase (hnone base)
  · rw [hsealed.failsClosed_iff a committed]
    refine ⟨fun h base' hbase' => ?_, fun h => h base hwal⟩
    obtain ⟨m, mt, gs, index, hm, hmt, hloop, -⟩ := hwal
    exact (hbase'.of_scan hm hmt hloop).1 ▸ h

instance (files : List NamedFile) : Decidable (DistinctNames files) :=
  decidable_of_iff ((∀ f ∈ files, '.' ∈ f.1) ∧ (files.map fun f => baseName f.1).Nodup)
    ⟨fun h => ⟨h.1, h.2⟩, fun h => ⟨h.dot, h.distinct⟩⟩

/-- The directory with the bytes of its WAL replaced. -/
def Disk.withWal (d : Disk) (f : Bytes → Bytes) : Disk :=
  { d with wal := d.wal.map fun file => { file with bytes := f file.bytes } }

def plainAttempt : Attempt := ⟨unrolled .always, 2, 7⟩

/-- A committed record in a sealed segment and a WAL of zeros: the open fails, and no later one
starts below the record. -/
theorem fails_closed_with_sealed_record :
    ∃ w log, LocalRun true .fresh (appends (rolling .always) 1) w ∧
      w.log = some log ∧ log.committedHwm = 1 ∧
      FailsClosed localEnv 0 1 (attempt localEnv 0 plainAttempt
        (w.disk.withWal fun _ => List.replicate 100 0)).2 := by
  obtain ⟨w, log, e, hrun, hlog, hcommitted, hnames, hfail, hcorrupt, hbase⟩ : ∃ w log e,
      LocalRun true .fresh (appends (rolling .always) 1) w ∧
      w.log = some log ∧ log.committedHwm = 1 ∧
      DistinctNames (w.disk.withWal fun _ => List.replicate 100 0).segments ∧
      (attempt localEnv 0 plainAttempt
        (w.disk.withWal fun _ => List.replicate 100 0)).1 = .error e ∧ e.isCorruption = true ∧
      (loadOrCreate 2 0 ⟨w.disk.withWal fun _ => List.replicate 100 0, []⟩).1.toOption.all (fun m =>
          (localEnv.loadMeta (w.disk.withWal fun _ => List.replicate 100 0)).toOption.all fun mt =>
            (scanSegments localEnv m mt.purgedOffsets
              (w.disk.withWal fun _ => List.replicate 100 0)).toOption.all fun r =>
                1 ≤ r.1) = true := by
    decide +kernel
  refine ⟨w, log, hrun, hlog, hcommitted, (fails_closed_iff hnames hfail hcorrupt 1).mpr ?_⟩
  rintro base ⟨m, mt, gs, index, hm, hmt, hloop, -⟩
  have hm' : (loadOrCreate 2 0 ⟨w.disk.withWal fun _ => List.replicate 100 0, []⟩).1 = .ok m := hm
  simp only [hm', hmt, Except.toOption, Option.all_some, hloop] at hbase
  exact of_decide_eq_true hbase

/-- Record 1 is committed; then the first byte of `active.wal` is damaged. The next open fails and
quarantines the file, and the one after it starts at offset 0 again. -/
theorem reopen_reuses_committed_offset :
    ∃ w log e, LocalRun true .fresh (appends (unrolled .always) 1) w ∧
      w.log = some log ∧ log.committedHwm = 1 ∧
      (attempt localEnv 0 plainAttempt (w.disk.withWal fun bytes => 0 :: bytes.tail)).1
        = .error e ∧ e.isCorruption = true ∧
      ¬ FailsClosed localEnv 0 1 (attempt localEnv 0 plainAttempt
        (w.disk.withWal fun bytes => 0 :: bytes.tail)).2 := by
  refine Exists.imp (fun w => Exists.imp fun log => Exists.imp fun e => and_imp_of fun _ =>
    and_imp_of fun _ => and_imp_of fun _ => and_imp_of fun _ => and_imp_of fun _
      (h : ∃ log₂, (attempt localEnv 0 plainAttempt (attempt localEnv 0
        plainAttempt (w.disk.withWal fun bytes => 0 :: bytes.tail)).2).1 = .ok log₂ ∧
        log₂.nextOffset = 0) hclosed => ?_) (by decide +kernel)
  obtain ⟨log₂, hlog₂, hnext⟩ := h
  have hopen := hclosed [] plainAttempt log₂ hlog₂
  rw [hnext] at hopen
  exact absurd hopen (by decide)

end BetterMQ
