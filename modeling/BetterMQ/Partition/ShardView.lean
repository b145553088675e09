import BetterMQ.Lib.Select
import BetterMQ.Partition.ShardLog

/-!
# Views of a shard log

Reading and purging single messages of a shard log, and what a log looks like to someone who sees
only some of its records: `ShardLog.view` is the log of those records, numbered by themselves.

* **`listTopicMessagesFrom_view`**, **`readMessage_view`** — reading the seen records in the log and
  in the view gives the same, up to their numbers;
* **`purge_view`**, **`purgeTopic_view`** — purging them leads from a log and its view to a log and
  its view;
* **`view_append_of_not`**, **`view_purge_of_not`** — what happens to the others is not seen.
-/

namespace BetterMQ

open List Option Select

namespace ShardLog

/-! ## One message -/

/-- A record at the end. -/
def append (log : ShardLog) (item : Item) : ShardLog :=
  { log with records := log.records ++ [item] }

/-- `purge_offset`. -/
def purge (log : ShardLog) (offset : Nat) : Bool × ShardLog :=
  if offset ∈ log.removed ∨ log.records.length ≤ offset then (false, log)
  else (true, { log with removed := offset :: log.removed })

theorem purge_records (log : ShardLog) (offset : Nat) :
    (log.purge offset).2.records = log.records := by
  unfold purge
  split <;> rfl

variable {log : ShardLog} {offset : Nat} {topic : String}

theorem purge_removed (h : ∀ o ∈ log.removed, o < log.records.length) :
    ∀ o ∈ (log.purge offset).2.removed, o < (log.purge offset).2.records.length := by
  unfold purge
  split
  · exact h
  · next hnot =>
    intro o ho
    rcases mem_cons.mp ho with rfl | hold
    · exact Nat.lt_of_not_le fun hle => hnot (.inr hle)
    · exact h o hold

/-- `read_message` within the log. -/
def readMessage (log : ShardLog) (topic : String) (offset : Nat) : Option (Nat × Item) :=
  (log.readRange offset 1).find? fun x => x.1 = offset ∧ x.2.1.topic = topic

variable {item : Item}

theorem mem_readRange_one :
    (offset, item) ∈ log.readRange offset 1 ↔ (offset, item) ∈ log.readable offset := by
  constructor
  · exact mem_of_mem_take
  · intro hmem
    have hsorted := log.readable_sorted offset
    unfold readRange
    cases hlist : log.readable offset with
    | nil =>
      rw [hlist] at hmem
      cases hmem
    | cons first rest =>
      rw [hlist] at hmem hsorted
      rcases mem_cons.mp hmem with rfl | hrest
      · exact .head _
      · -- the first record would be before the offset
        have hlt := (pairwise_cons.mp hsorted).1 _ hrest
        have hfirst : first ∈ log.readable offset := by
          rw [hlist]
          exact .head _
        have hle := (mem_readable.mp hfirst).2.1
        exact absurd hlt (Nat.not_lt_of_le hle)

theorem readMessage_eq_some_iff {x : Nat × Item} :
    log.readMessage topic offset = some x ↔
      x.1 = offset ∧ log.records[offset]? = some x.2 ∧ offset ∉ log.removed ∧
        x.2.1.topic = topic := by
  obtain ⟨o, item⟩ := x
  constructor
  · intro h
    have hmem := mem_of_find?_eq_some h
    have hfound := find?_some h
    obtain ⟨rfl, htopic⟩ := of_decide_eq_true hfound
    obtain ⟨hget, -, hkept⟩ := mem_readable.mp (mem_readRange_one.mp hmem)
    exact ⟨rfl, hget, hkept, htopic⟩
  · rintro ⟨rfl, hget, hkept, htopic⟩
    have hmem : (o, item) ∈ log.readRange o 1 :=
      mem_readRange_one.mpr (mem_readable.mpr ⟨hget, Nat.le_refl _, hkept⟩)
    -- at most one record was read
    have hlength : (log.readRange o 1).length ≤ 1 := length_take_le _ _
    unfold readMessage
    match hlist : log.readRange o 1 with
    | [] =>
      rw [hlist] at hmem
      cases hmem
    | [y] =>
      rw [hlist] at hmem
      cases mem_singleton.mp hmem
      rw [find?_cons_of_pos]
      exact decide_eq_true ⟨rfl, htopic⟩
    | y :: z :: rest =>
      rw [hlist] at hlength
      simp at hlength

/-! ## A whole topic -/

/-- The inner loop of `purge_dlq_topic`: one page. -/
def purgePage (eligible : Item → Bool) : List (Nat × Item) → ShardLog → Nat × ShardLog
  | [], log => (0, log)
  | x :: batch, log =>
    if eligible x.2 then
      let (removed, log) := log.purge x.1
      let (deleted, log) := purgePage eligible batch log
      (if removed then deleted + 1 else deleted, log)
    else purgePage eligible batch log

/-- The loop over the pages of one partition. -/
def purgeTopicLoop (topic : String) (eligible : Item → Bool) :
    Nat → Nat → Nat → ShardLog → Nat × ShardLog
  | 0, _, deleted, log => (deleted, log)
  | fuel + 1, cursor, deleted, log =>
    let batch := log.listTopicMessagesFrom topic cursor 256
    match batch.getLast? with
    | none => (deleted, log)
    | some last =>
      let (n, log) := purgePage eligible batch log
      purgeTopicLoop topic eligible fuel (last.1 + 1) (deleted + n) log

/-- `purge_dlq_topic` in one partition. Every page but the last has a record, so the records are
pages enough. -/
def purgeTopic (log : ShardLog) (topic : String) (eligible : Item → Bool) : Nat × ShardLog :=
  purgeTopicLoop topic eligible (log.records.length + 1) 0 0 log

/-- Mark offsets as purged. -/
def purgeAll (log : ShardLog) (offsets : List Nat) : ShardLog :=
  { log with removed := offsets.reverse ++ log.removed }

theorem purgeAll_append (log : ShardLog) (xs ys : List Nat) :
    (log.purgeAll xs).purgeAll ys = log.purgeAll (xs ++ ys) := by
  simp [purgeAll, reverse_append, append_assoc]

variable {eligible : Item → Bool} {start : Nat}

theorem purgePage_eq {batch : List (Nat × Item)}
    (hthere : ∀ x ∈ batch, x.1 < log.records.length ∧ x.1 ∉ log.removed)
    (hsorted : batch.Pairwise fun x y => x.1 < y.1) :
    purgePage eligible batch log = ((batch.filter fun x => eligible x.2).length,
      log.purgeAll ((batch.filter fun x => eligible x.2).map Prod.fst)) := by
  induction batch generalizing log with
  | nil => rfl
  | cons x batch ih =>
    obtain ⟨hfirst, hrest⟩ := pairwise_cons.mp hsorted
    obtain ⟨hlt, hkept⟩ := hthere x (.head _)
    rw [purgePage]
    split
    · next helig =>
      have hpurge : log.purge x.1 = (true, log.purgeAll [x.1]) :=
        if_neg (not_or.mpr ⟨hkept, Nat.not_le_of_lt hlt⟩)
      -- the other records of the page are still there
      have hthere' : ∀ y ∈ batch,
          y.1 < (log.purgeAll [x.1]).records.length ∧ y.1 ∉ (log.purgeAll [x.1]).removed := by
        intro y hy
        obtain ⟨hlty, hkepty⟩ := hthere y (.tail _ hy)
        refine ⟨hlty, fun hmem => ?_⟩
        rcases mem_cons.mp hmem with heq | hold
        · exact absurd (hfirst y hy) (heq ▸ Nat.lt_irrefl _)
        · exact hkepty hold
      rw [hpurge]
      dsimp only
      rw [ih hthere' hrest, purgeAll_append, filter_cons_of_pos (by exact helig)]
      rfl
    · next helig =>
      rw [ih (fun y hy => hthere y (.tail _ hy)) hrest, filter_cons_of_neg (by exact helig)]

theorem topicFrom_sorted (log : ShardLog) (topic : String) (start : Nat) :
    (log.topicFrom topic start).Pairwise fun x y => x.1 < y.1 :=
  (log.readable_sorted start).filter _

theorem topicFrom_after {count : Nat} {last : Nat × Item}
    (h : ((log.topicFrom topic start).take count).getLast? = some last) :
    log.topicFrom topic (last.1 + 1) = (log.topicFrom topic start).drop count := by
  have hmem : last ∈ (log.topicFrom topic start).take count := mem_of_getLast? h
  have hstart : start ≤ last.1 + 1 :=
    Nat.le_succ_of_le (mem_topicFrom.mp (mem_of_mem_take hmem)).1.2.1
  have hafter : log.topicFrom topic (last.1 + 1)
      = (log.topicFrom topic start).filter fun x => last.1 + 1 ≤ x.1 := by
    rw [topicFrom, readable_filter hstart, List.filter_filter, topicFrom, List.filter_filter]
    exact filter_congr fun x _ => Bool.and_comm _ _
  rw [hafter]
  exact filter_after (log.topicFrom_sorted topic start) h

variable {offsets : List Nat}

/-- Purged offsets below the cursor are not read again. -/
theorem topicFrom_purgeAll (log : ShardLog) (topic : String)
    (h : ∀ offset ∈ offsets, offset < start) :
    (log.purgeAll offsets).topicFrom topic start = log.topicFrom topic start := by
  rw [topicFrom]
  congr 1
  refine filter_congr fun x _ => ?_
  show decide (start ≤ x.1 ∧ x.1 ∉ offsets.reverse ++ log.removed)
    = decide (start ≤ x.1 ∧ x.1 ∉ log.removed)
  rw [decide_eq_decide]
  refine and_congr_right fun hle => not_congr ?_
  rw [mem_append, mem_reverse]
  exact or_iff_right fun hmem => absurd (h x.1 hmem) (Nat.not_lt_of_le hle)

theorem purgeTopicLoop_eq (fuel cursor deleted : Nat) (log : ShardLog)
    (hfuel : (log.topicFrom topic cursor).length < fuel) :
    purgeTopicLoop topic eligible fuel cursor deleted log
      = (deleted + ((log.topicFrom topic cursor).filter fun x => eligible x.2).length, log.purgeAll
          (((log.topicFrom topic cursor).filter fun x => eligible x.2).map Prod.fst)) := by
  induction fuel generalizing cursor deleted log with
  | zero => exact absurd hfuel (Nat.not_lt_zero _)
  | succ fuel ih =>
    rw [purgeTopicLoop, listTopicMessagesFrom_eq]
    split
    · next hnone =>
      have hnil : log.topicFrom topic cursor = [] := by
        rcases List.take_eq_nil_iff.mp (getLast?_eq_none_iff.mp hnone) with h | h
        · cases h
        · exact h
      rw [hnil]
      rfl
    · next last hlast =>
      set page := (log.topicFrom topic cursor).take 256 with hpage
      have hafter := topicFrom_after hlast
      have hpos : 0 < page.length := length_pos_of_mem (mem_of_getLast? hlast)
      have hthere : ∀ x ∈ page, x.1 < log.records.length ∧ x.1 ∉ log.removed := by
        intro x hx
        obtain ⟨⟨hget, -, hkept⟩, -⟩ := mem_topicFrom.mp (mem_of_mem_take hx)
        exact ⟨(List.getElem?_eq_some_iff.mp hget).1, hkept⟩
      have hsorted : page.Pairwise fun x y => x.1 < y.1 :=
        (log.topicFrom_sorted topic cursor).sublist (List.take_sublist _ _)
      rw [purgePage_eq hthere hsorted]
      dsimp only
      -- what was purged lies before the next page
      have hbelow : ∀ offset ∈ (page.filter fun x => eligible x.2).map Prod.fst,
          offset < last.1 + 1 := by
        intro offset hoffset
        obtain ⟨x, hx, rfl⟩ := List.mem_map.mp hoffset
        exact Nat.lt_succ_of_le (le_last hsorted hlast (mem_of_mem_filter hx))
      have hnext := topicFrom_purgeAll log topic hbelow
      rw [ih, hnext, hafter, purgeAll_append, ← map_append, Nat.add_assoc, ← List.length_append,
        ← filter_append,
        take_append_drop]
      rw [hnext, hafter, List.length_drop]
      rw [List.length_take] at hpos
      omega

/-- **What `purge_dlq_topic` does in a partition**: it purges the eligible records of the topic. -/
theorem purgeTopic_eq (log : ShardLog) (topic : String) (eligible : Item → Bool) :
    log.purgeTopic topic eligible
      = (((log.topicFrom topic 0).filter fun x => eligible x.2).length,
        log.purgeAll (((log.topicFrom topic 0).filter fun x => eligible x.2).map Prod.fst)) := by
  rw [purgeTopic, purgeTopicLoop_eq, Nat.zero_add]
  refine Nat.lt_succ_of_le ?_
  refine Nat.le_trans (length_filter_le _ _) (Nat.le_trans (length_filter_le _ _) ?_)
  rw [length_map, length_zipIdx]

theorem purgeTopic_records (log : ShardLog) (topic : String) (eligible : Item → Bool) :
    (log.purgeTopic topic eligible).2.records = log.records := by
  rw [purgeTopic_eq]
  rfl

theorem purgeTopic_removed (h : ∀ o ∈ log.removed, o < log.records.length) :
    ∀ o ∈ (log.purgeTopic topic eligible).2.removed,
      o < (log.purgeTopic topic eligible).2.records.length := by
  rw [purgeTopic_eq]
  intro o ho
  rcases mem_append.mp ho with hnew | hold
  · obtain ⟨x, hx, rfl⟩ := mem_map.mp (mem_reverse.mp hnew)
    obtain ⟨⟨hget, -⟩, -⟩ := mem_topicFrom.mp (List.mem_of_mem_filter hx)
    exact (List.getElem?_eq_some_iff.mp hget).1
  · exact h o hold

/-! ## What someone sees of a log -/

variable {p : Item → Bool} {r : Nat}

/-- The log of the selected records, with their numbers as offsets. -/
def view (p : Item → Bool) (log : ShardLog) : ShardLog where
  records := log.records.filter p
  removed := (log.removed.filter fun offset => (log.records[offset]?).any p).map
    (rank p log.records)
  committed := log.committed

theorem rank_mem_view_removed (hget : log.records[offset]? = some item) (hitem : p item) :
    rank p log.records offset ∈ (log.view p).removed ↔ offset ∈ log.removed := by
  rw [view, List.mem_map]
  constructor
  · rintro ⟨o, ho, hrank⟩
    obtain ⟨hmem, hany⟩ := mem_filter.mp ho
    obtain ⟨x, hx, hsel⟩ := (any_eq_true _ _).mp hany
    have hsame : o = offset := by
      rw [← place_rank hx hsel, hrank, place_rank hget hitem]
    exact hsame ▸ hmem
  · intro hmem
    refine ⟨offset, mem_filter.mpr ⟨hmem, ?_⟩, rfl⟩
    rw [hget]
    exact hitem

theorem getElem?_view (hget : log.records[offset]? = some item) (hitem : p item) :
    (log.view p).records[rank p log.records offset]? = some item := by
  show (log.records.filter p)[_]? = _
  rw [Select.getElem?_filter, place_rank hget hitem]
  exact hget

/-- A number that is not in the view of the log is not in the log either. -/
theorem exists_of_getElem?_view (hget : (log.view p).records[r]? = some item) :
    ∃ offset, log.records[offset]? = some item ∧ p item ∧ rank p log.records offset = r ∧
      place p log.records r = offset := by
  have hplace : log.records[place p log.records r]? = some item := by
    rw [← Select.getElem?_filter]
    exact hget
  obtain ⟨hlt, -⟩ := List.getElem?_eq_some_iff.mp hget
  exact ⟨_, hplace, selected_at_place hplace, rank_place hlt, rfl⟩

/-- **Reading a view** from a number is reading the log from a corresponding offset. -/
theorem readable_view (h : Corresponds p log.records start r) :
    (log.view p).readable r
      = ((log.readable start).filter fun x => p x.2).map
        fun x => (rank p log.records x.1, x.2) := by
  -- both lists are sorted by number and have the same members
  have hleft := (log.view p).readable_sorted r
  have hright : (((log.readable start).filter fun x => p x.2).map
      fun x => (rank p log.records x.1, x.2)).Pairwise fun x y => x.1 < y.1 := by
    rw [pairwise_map]
    refine List.Pairwise.imp_of_mem ?_ ((log.readable_sorted start).filter fun x => p x.2)
    intro x y hx hy hlt
    obtain ⟨hx, hselx⟩ := mem_filter.mp hx
    obtain ⟨hy, hsely⟩ := mem_filter.mp hy
    have hgetx := (mem_readable.mp hx).1
    have hnot : ¬rank p log.records y.1 ≤ rank p log.records x.1 := fun hle =>
      absurd ((rank_le_iff y.1 hgetx hselx).mp hle) (Nat.not_le_of_lt hlt)
    exact Nat.lt_of_not_le hnot
  have hnodup : ∀ {l : List (Nat × Item)}, l.Pairwise (fun x y => x.1 < y.1) → l.Nodup :=
    fun hl => hl.imp fun hlt heq => absurd (heq ▸ hlt) (Nat.lt_irrefl _)
  refine List.Perm.eq_of_pairwise (fun x y _ _ hxy hyx => absurd hxy (Nat.lt_asymm hyx)) hleft
    hright ?_
  rw [perm_ext_iff_of_nodup (hnodup hleft) (hnodup hright)]
  rintro ⟨number, item⟩
  rw [mem_readable, List.mem_map]
  constructor
  · rintro ⟨hget, hle, hkept⟩
    obtain ⟨offset, hoffset, hitem, hrank, -⟩ := exists_of_getElem?_view hget
    subst hrank
    refine ⟨(offset, item), mem_filter.mpr ⟨mem_readable.mpr ⟨hoffset, ?_, ?_⟩, hitem⟩, rfl⟩
    · exact (h offset item hoffset hitem).mpr hle
    · exact fun hremoved => hkept ((rank_mem_view_removed hoffset hitem).mpr hremoved)
  · rintro ⟨⟨offset, item'⟩, hmem, heq⟩
    cases heq
    obtain ⟨hread, hitem⟩ := mem_filter.mp hmem
    obtain ⟨hget, hle, hkept⟩ := mem_readable.mp hread
    exact ⟨getElem?_view hget hitem, (h offset item' hget hitem).mp hle,
      fun hremoved => hkept ((rank_mem_view_removed hget hitem).mp hremoved)⟩

theorem topicFrom_view (htopic : ∀ item : Item, item.1.topic = topic → p item)
    (h : Corresponds p log.records start r) :
    (log.view p).topicFrom topic r
      = (log.topicFrom topic start).map fun x => (rank p log.records x.1, x.2) := by
  rw [topicFrom, readable_view h, List.filter_map, List.filter_filter]
  congr 1
  refine filter_congr fun x _ => ?_
  by_cases hx : x.2.1.topic = topic
  · simp [hx, htopic x.2 hx]
  · simp [hx]

/-- **Listing.** -/
theorem listTopicMessagesFrom_view (log : ShardLog) (limit : Nat)
    (htopic : ∀ item : Item, item.1.topic = topic → p item)
    (h : Corresponds p log.records start r) :
    (log.view p).listTopicMessagesFrom topic r limit
      = (log.listTopicMessagesFrom topic start limit).map
        fun x => (rank p log.records x.1, x.2) := by
  rw [listTopicMessagesFrom_eq, listTopicMessagesFrom_eq, topicFrom_view htopic h, map_take]

/-- **Reading one message.** -/
theorem readMessage_view (log : ShardLog) (htopic : ∀ item : Item, item.1.topic = topic → p item)
    (r : Nat) :
    (log.view p).readMessage topic r
      = (log.readMessage topic (place p log.records r)).map
        fun x => (rank p log.records x.1, x.2) := by
  refine Option.ext fun x => ?_
  rw [readMessage_eq_some_iff, map_eq_some_iff]
  constructor
  · rintro ⟨hr, hget, hkept, hx⟩
    obtain ⟨offset, hoffset, hitem, hrank, hplace⟩ := exists_of_getElem?_view hget
    refine ⟨(offset, x.2), readMessage_eq_some_iff.mpr ⟨hplace.symm, ?_, ?_, hx⟩, ?_⟩
    · rw [hplace]
      exact hoffset
    · rw [hplace]
      intro hremoved
      rw [← hrank] at hkept
      exact hkept ((rank_mem_view_removed hoffset hitem).mpr hremoved)
    · rw [hrank, ← hr]
  · rintro ⟨⟨offset, item⟩, hread, rfl⟩
    obtain ⟨hoffset, hget, hkept, hx⟩ := readMessage_eq_some_iff.mp hread
    dsimp only at hoffset hget hx
    have hitem := htopic item hx
    have hlt : r < (log.records.filter p).length := by
      rw [← Select.getElem?_filter] at hget
      exact (List.getElem?_eq_some_iff.mp hget).1
    have hrank : rank p log.records offset = r := by rw [hoffset, rank_place hlt]
    rw [← hoffset] at hget hkept
    refine ⟨hrank, ?_, ?_, hx⟩
    · rw [← hrank]
      exact getElem?_view hget hitem
    · rw [← hrank]
      exact fun hremoved => hkept ((rank_mem_view_removed hget hitem).mp hremoved)

/-- The numbers that can be purged are those of the records that can. -/
theorem place_purgeable_iff (log : ShardLog) (r : Nat) :
    (place p log.records r ∈ log.removed ∨
      log.records.length ≤ place p log.records r) ↔
      (r ∈ (log.view p).removed ∨ (log.view p).records.length ≤ r) := by
  rcases Nat.lt_or_ge r (log.records.filter p).length with hlt | hge
  · have hnot : ¬(log.view p).records.length ≤ r := Nat.not_le_of_lt hlt
    have hnot' : ¬log.records.length ≤ place p log.records r :=
      fun hle => hnot (length_le_place_iff.mp hle)
    obtain ⟨item, hget⟩ : ∃ item, (log.records.filter p)[r]? = some item :=
      ⟨_, getElem?_eq_getElem hlt⟩
    rw [Select.getElem?_filter] at hget
    have hmem := rank_mem_view_removed hget (selected_at_place hget)
    rw [rank_place hlt] at hmem
    rw [or_iff_left hnot, or_iff_left hnot']
    exact hmem.symm
  · exact iff_of_true (.inr (length_le_place_iff.mpr hge)) (.inr hge)

/-- **Purging one message.** -/
theorem purge_view (log : ShardLog) (r : Nat) :
    (log.view p).purge r = ((log.purge (place p log.records r)).1,
      (log.purge (place p log.records r)).2.view p) := by
  by_cases h : r ∈ (log.view p).removed ∨ (log.view p).records.length ≤ r
  · rw [purge, if_pos h, purge, if_pos ((place_purgeable_iff log r).mpr h)]
  · have h' := mt (place_purgeable_iff log r).mp h
    rw [purge, if_neg h, purge, if_neg h']
    have hlt : r < (log.records.filter p).length := Nat.lt_of_not_le fun hle => h (.inr hle)
    have hget : log.records[place p log.records r]?
        = some ((log.records.filter p).get ⟨r, hlt⟩) := by
      rw [← Select.getElem?_filter]
      exact getElem?_eq_getElem hlt
    have hsel := selected_at_place hget
    refine Prod.ext rfl ?_
    show (⟨_, _, _⟩ : ShardLog) = ⟨_, _, _⟩
    congr 1
    rw [filter_cons_of_pos (by rw [hget]; exact hsel), map_cons, rank_place hlt]
    rfl

theorem view_purgeAll_of_seen (hseen : ∀ offset ∈ offsets, (log.records[offset]?).any p) :
    (log.purgeAll offsets).view p
      = (log.view p).purgeAll (offsets.map (rank p log.records)) := by
  show (⟨_, _, _⟩ : ShardLog) = ⟨_, _, _⟩
  congr 1
  have hall : offsets.reverse.filter (fun offset => (log.records[offset]?).any p)
      = offsets.reverse :=
    filter_eq_self.mpr fun offset hoffset => hseen offset (mem_reverse.mp hoffset)
  show ((offsets.reverse ++ log.removed).filter fun offset => (log.records[offset]?).any p).map
    (rank p log.records) = _
  rw [filter_append, map_append, hall, map_reverse]
  rfl

/-- **Purging a topic.** -/
theorem purgeTopic_view (log : ShardLog) (htopic : ∀ item : Item, item.1.topic = topic → p item)
    (eligible : Item → Bool) :
    (log.view p).purgeTopic topic eligible = ((log.purgeTopic topic eligible).1,
      (log.purgeTopic topic eligible).2.view p) := by
  have hzero : Corresponds p log.records 0 0 := by
    have h := corresponds_rank (p := p) log.records 0
    rwa [rank_zero] at h
  have hseen : ∀ offset ∈ ((log.topicFrom topic 0).filter fun x => eligible x.2).map Prod.fst,
      (log.records[offset]?).any p := by
    intro offset hoffset
    obtain ⟨x, hx, rfl⟩ := mem_map.mp hoffset
    obtain ⟨⟨hget, -⟩, hx⟩ := mem_topicFrom.mp (mem_of_mem_filter hx)
    rw [hget]
    exact htopic x.2 hx
  rw [purgeTopic_eq, purgeTopic_eq, topicFrom_view htopic hzero, List.filter_map]
  refine Prod.ext ?_ ?_
  · exact length_map _
  · rw [view_purgeAll_of_seen hseen, List.map_map, List.map_map]
    rfl

/-! ## Records that are not seen -/

theorem view_append_of_not (hitem : ¬p item) : (log.append item).view p = log.view p := by
  unfold ShardLog.append
  show (⟨_, _, _⟩ : ShardLog) = ⟨_, _, _⟩
  have hseen : ∀ offset : Nat, ((log.records ++ [item])[offset]?).any p
      = (log.records[offset]?).any p := by
    intro offset
    rcases Nat.lt_or_ge offset log.records.length with hlt | hge
    · rw [getElem?_append_left hlt]
    · rw [getElem?_append_right hge, getElem?_eq_none hge]
      cases hdiff : offset - log.records.length with
      | zero => exact Bool.eq_false_iff.mpr hitem
      | succ n => rfl
  congr 1
  · rw [filter_append, filter_cons_of_neg hitem, filter_nil, append_nil]
  · rw [filter_congr fun offset _ => hseen offset]
    refine map_congr_left fun offset hoffset => ?_
    obtain ⟨x, hget, -⟩ := (any_eq_true _ _).mp (mem_filter.mp hoffset).2
    obtain ⟨hlt, -⟩ := List.getElem?_eq_some_iff.mp hget
    exact rank_append _ hlt.le

theorem view_append_of_seen (hitem : p item)
    (hremoved : ∀ offset ∈ log.removed, offset < log.records.length) :
    (log.append item).view p = (log.view p).append item := by
  unfold ShardLog.append
  show (⟨_, _, _⟩ : ShardLog) = ⟨_, _, _⟩
  congr 1
  · rw [filter_append, filter_cons_of_pos hitem]
    rfl
  · have hseen : ∀ offset ∈ log.removed, ((log.records ++ [item])[offset]?).any p
        = (log.records[offset]?).any p := fun offset hoffset => by
      rw [getElem?_append_left (hremoved offset hoffset)]
    rw [filter_congr hseen]
    refine map_congr_left fun offset hoffset => ?_
    exact rank_append _ (Nat.le_of_lt (hremoved offset (mem_of_mem_filter hoffset)))

theorem view_purge_of_not (hseen : ∀ item, log.records[offset]? = some item → ¬p item) :
    (log.purge offset).2.view p = log.view p := by
  unfold purge
  split
  · rfl
  · show (⟨_, _, _⟩ : ShardLog) = ⟨_, _, _⟩
    congr 2
    rw [filter_cons_of_neg]
    intro hany
    obtain ⟨item, hget, hitem⟩ := (any_eq_true _ _).mp hany
    exact hseen item hget hitem

theorem view_purgeAll_of_not (hseen : ∀ offset ∈ offsets, ¬(log.records[offset]?).any p) :
    (log.purgeAll offsets).view p = log.view p := by
  show (⟨_, _, _⟩ : ShardLog) = ⟨_, _, _⟩
  congr 1
  have hnone : offsets.reverse.filter (fun offset => (log.records[offset]?).any p) = [] :=
    filter_eq_nil_iff.mpr fun offset hoffset => hseen offset (mem_reverse.mp hoffset)
  show ((offsets.reverse ++ log.removed).filter fun offset => (log.records[offset]?).any p).map
    (rank p log.records) = _
  rw [filter_append, hnone, nil_append]

theorem view_purgeTopic_of_not (log : ShardLog)
    (htopic : ∀ item : Item, item.1.topic = topic → ¬p item) (eligible : Item → Bool) :
    (log.purgeTopic topic eligible).2.view p = log.view p := by
  rw [purgeTopic_eq]
  refine view_purgeAll_of_not fun offset hoffset => ?_
  obtain ⟨x, hx, rfl⟩ := mem_map.mp hoffset
  obtain ⟨⟨hget, -⟩, hx⟩ := mem_topicFrom.mp (mem_of_mem_filter hx)
  rw [hget]
  exact htopic x.2 hx

end ShardLog

end BetterMQ
