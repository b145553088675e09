import BetterMQ.Partition.Publish

/-!
# The life of an idempotency key

The publishing of one key has a life of its own: nobody works on it, a call holds its reservation,
a call's record is in a log, the index names that record. `Life.Allows` says which phases the calls
of the key may be in at each stage, and `KeyInv` ties the stage to the index, the reservations and
the logs.

* **`KeyInv.frame`** — an action of a call leaves the lives of the other keys as they are;
* **`KeyInv.act`** — and moves the life of its own key to a stage again, when an inserted
  reservation finds a key nobody has stored.
-/

namespace BetterMQ

open Finset Function List Option

/-! ## Index keys -/

/-- The first occurrence of a separator splits a list in one way. -/
theorem append_cons_inj {α : Type} {a : α} {xs ys xs' ys' : List α} (hxs : a ∉ xs) (hxs' : a ∉ xs')
    (h : xs ++ a :: ys = xs' ++ a :: ys') : xs = xs' ∧ ys = ys' := by
  rcases append_eq_append_iff.mp h with ⟨more, hmore, htail⟩ | ⟨more, hmore, htail⟩
  · cases more with
    | nil => simp_all
    | cons x more =>
      cases htail
      simp [hmore] at hxs'
  · cases more with
    | nil => simp_all
    | cons x more =>
      cases htail
      simp [hmore] at hxs

/-- Tenants without a colon never share an index key. -/
theorem dedupKey_injective {k k' : ReservationKey} (hk : ':' ∉ k.tenantId.toList)
    (hk' : ':' ∉ k'.tenantId.toList) (h : k.dedupKey = k'.dedupKey) : k = k' := by
  have hlist := congrArg String.toList h
  simp only [ReservationKey.dedupKey, String.toList_append, append_assoc,
    append_cancel_left_eq] at hlist
  have hsplit : k.tenantId.toList ++ ':' :: k.idempotencyKey.toList
      = k'.tenantId.toList ++ ':' :: k'.idempotencyKey.toList := hlist
  obtain ⟨htenant, hkey⟩ := append_cons_inj hk hk' hsplit
  cases k
  cases k'
  rw [ReservationKey.mk.injEq]
  exact ⟨String.toList_injective htenant, String.toList_injective hkey⟩

/-! ## The life of a key -/

/-- Not yet reserved, or failed without a trace. -/
def Phase.Bystander : Phase → Prop
  | .waiting | .checked | .missed | .failed none => True
  | _ => False

/-- Between the reservation and the append. -/
def Phase.Reserving : Phase → Prop
  | .reserved | .prepared _ | .dropping none => True
  | _ => False

/-- After the append of `e`, which the index does not name. -/
def Phase.Storing (e : DedupEntry) : Phase → Prop
  | .appended r | .replicating r | .committing r => r.entry = e ∧ r.duplicate = false
  | .dropping (some e') | .failed (some e') => e' = e
  | _ => False

/-- Any phase of a call whose key the index maps to `e`. -/
def Phase.Settled (e : DedupEntry) : Phase → Prop
  | .waiting | .checked | .missed | .failed none => True
  | .written r | .replicating r | .committing r | .releasing r | .returned r => r.entry = e
  | .failed (some e') => e' = e
  | _ => False

variable {p : Phase}

theorem Phase.Bystander.not_reserving (h : p.Bystander) : ¬ p.Reserving := by
  unfold Phase.Bystander at h
  split at h
  all_goals first | exact id | exact h.elim

theorem Phase.Bystander.not_storing (h : p.Bystander) (e : DedupEntry) : ¬ p.Storing e := by
  unfold Phase.Bystander at h
  split at h
  all_goals first | exact id | exact h.elim

theorem Phase.Bystander.settled (h : p.Bystander) (e : DedupEntry) : p.Settled e := by
  unfold Phase.Bystander at h
  split at h
  all_goals trivial

/-- The call holds its key's reservation. -/
def Phase.holdsToken : Phase → Bool
  | .reserved | .prepared _ | .appended _ | .written _ | .dropping _ => true
  | _ => false

/-- The call has stored a record, gave up its reservation, and has not written the index. -/
def Phase.unrecorded : Phase → Bool
  | .replicating r => !r.duplicate
  | .committing _ | .failed (some _) => true
  | _ => false

/-- The call failed after its record reached the log. -/
def Phase.failedStored : Phase → Bool
  | .failed (some _) => true
  | _ => false

/-- A phase that only `publish_on_leader` has. -/
def Phase.onLeader : Phase → Bool
  | .replicating _ | .committing _ | .releasing _ => true
  | _ => false

theorem Phase.Reserving.holdsToken (h : p.Reserving) : p.holdsToken = true := by
  unfold Phase.Reserving at h
  split at h
  all_goals first | rfl | exact h.elim

/-- A call that has stored its record holds the reservation, or is in the open. -/
theorem Phase.Storing.holdsToken_or {e : DedupEntry} (h : p.Storing e) :
    p.holdsToken = true ∨ p.unrecorded = true := by
  unfold Phase.Storing at h
  split at h
  · exact .inl rfl
  · exact .inr (by rw [Phase.unrecorded, h.2]; rfl)
  · exact .inr rfl
  · exact .inl rfl
  · exact .inr rfl
  · exact h.elim

namespace Broker

/-- How far the publishing of a key has come. -/
inductive Life where
  | free
  | owned (i : Nat)
  | stored (i : Nat) (shard : ShardKey) (entry : DedupEntry)
  | recorded (shard : ShardKey) (entry : DedupEntry)

namespace Life

/-- The place of the key's record. -/
def place : Life → Option (ShardKey × DedupEntry)
  | .free | .owned _ => none
  | .stored _ shard entry | .recorded shard entry => some (shard, entry)

def indexed : Life → Option DedupEntry
  | .recorded _ entry => some entry
  | _ => none

def owner : Life → Option Nat
  | .owned i | .stored i _ _ => some i
  | _ => none

/-- The phases a call `i` of the key may be in. -/
def Allows (life : Life) (i : Nat) (p : Phase) : Prop :=
  match life with
  | .free => p.Bystander
  | .owned o => if i = o then p.Reserving else p.Bystander
  | .stored o _ entry => if i = o then p.Storing entry else p.Bystander
  | .recorded _ entry => p.Settled entry

end Life

/-- The stage of the key `k` in the broker `b`. -/
structure KeyInv (b : Broker) (k : ReservationKey) (life : Life) : Prop where
  calls : ∀ i c, b.calls[i]? = some c → c.key = some k → life.Allows i c.phase
  owner : ∀ i ∈ life.owner, ∃ c, b.calls[i]? = some c ∧ c.key = some k ∧
    (c.phase.holdsToken = true → k ∈ b.pending)
  index : b.dedup k.dedupKey = life.indexed
  records : ∀ shard o item, (b.logs shard).records[o]? = some item →
    item.1.reservationKey = some k → life.place = some (shard, ⟨item.1.id, o, shard.partition⟩)

variable {b : Broker} {c : Call} {k : ReservationKey} {life : Life} {i j : Nat} {e : Effect}
  {a : Action}

/-! ## What an action changes -/

theorem effect_append {record : PreparedRecord} {synced : Bool} (h : b.effect c a = some e)
    (happend : e.append = some (record, synced)) : c.phase = .prepared record := by
  unfold effect at h
  split at h
  all_goals try (repeat' split at h)
  all_goals cases h
  all_goals cases happend
  all_goals assumption

theorem calls_apply_self (hc : b.calls[i]? = some c) (e : Effect) :
    (b.apply i c e).calls[i]? = some { c with phase := e.phase } := by
  obtain ⟨hlt, -⟩ := List.getElem?_eq_some_iff.mp hc
  show (b.calls.set i _)[i]? = _
  rw [getElem?_set_self hlt]

theorem calls_apply_ne (hne : i ≠ j) (c : Call) (e : Effect) :
    (b.apply i c e).calls[j]? = b.calls[j]? :=
  getElem?_set_ne hne

theorem calls_apply_cases {c' : Call} (hc : b.calls[i]? = some c)
    (h : (b.apply i c e).calls[j]? = some c') :
    (j = i ∧ c' = { c with phase := e.phase }) ∨ (j ≠ i ∧ b.calls[j]? = some c') := by
  by_cases hji : j = i
  · subst hji
    rw [calls_apply_self hc, some_inj] at h
    exact .inl ⟨rfl, h.symm⟩
  · rw [calls_apply_ne (Ne.symm hji)] at h
    exact .inr ⟨hji, h⟩

theorem records_apply_cases {shard : ShardKey} {o : Nat} {item : Item}
    (h : ((b.apply i c e).logs shard).records[o]? = some item) :
    (b.logs shard).records[o]? = some item ∨
      ∃ record synced, e.append = some (record, synced) ∧
        shard = b.shardKey record.topic record.partition ∧ o = (b.logs shard).records.length ∧
        item = (record.header, record.payload) := by
  cases happend : e.append with
  | none =>
    simp only [apply, happend] at h
    exact .inl h
  | some pair =>
    obtain ⟨record, synced⟩ := pair
    simp only [apply, happend, appendTo, appendItems] at h
    by_cases hshard : shard = b.shardKey record.topic record.partition
    · subst hshard
      have hrecords : ((b.logs (b.shardKey record.topic record.partition)).records ++
          [(record.header, record.payload)])[o]? = some item := by
        rw [update_self] at h
        cases synced <;> exact h
      rcases Nat.lt_trichotomy o (b.logs (b.shardKey record.topic record.partition)).records.length
        with hlt | heq | hgt
      · rw [getElem?_append_left hlt] at hrecords
        exact .inl hrecords
      · subst heq
        rw [getElem?_concat_length, some_inj] at hrecords
        exact .inr ⟨record, synced, rfl, rfl, rfl, hrecords.symm⟩
      · rw [getElem?_eq_none (by rw [length_append]; exact hgt)] at hrecords
        cases hrecords
    · rw [update_of_ne hshard] at h
      exact .inl h

/-! ## Actions of other keys -/

theorem mem_pending_apply (hkey : c.key ≠ some k) (h : k ∈ b.pending) :
    k ∈ (b.apply i c e).pending := by
  show k ∈ e.onPending c.key b.pending
  unfold Effect.onPending
  split
  · next k' hk' =>
    have hne : k ≠ k' := by
      rintro rfl
      exact hkey hk'
    split_ifs
    · exact mem_insert_of_mem h
    · exact mem_erase_of_ne_of_mem hne h
    · exact h
  · exact h

theorem dedup_apply_of_ne (hkey : c.key ≠ some k) (hk : ':' ∉ k.tenantId.toList)
    (hc : ':' ∉ c.tenantId.toList) : (b.apply i c e).dedup k.dedupKey = b.dedup k.dedupKey := by
  show e.onDedup c.key b.dedup k.dedupKey = b.dedup k.dedupKey
  cases hck : c.key with
  | none => rfl
  | some k' =>
    have htenant : k'.tenantId = c.tenantId := by
      obtain ⟨_, -, rfl⟩ := map_eq_some_iff.mp hck
      rfl
    have hne : k.dedupKey ≠ k'.dedupKey := by
      intro heq
      rw [dedupKey_injective hk (by rw [htenant]; exact hc) heq] at hkey
      exact hkey hck
    unfold Effect.onDedup
    cases e.index with
    | none => rfl
    | some entry => exact update_of_ne hne _ _

/-- **Other keys' actions** leave the life of `k` as it is. -/
theorem KeyInv.frame (h : KeyInv b k life) (hc : b.calls[i]? = some c) (hkey : c.key ≠ some k)
    (hk : ':' ∉ k.tenantId.toList) (htenant : ':' ∉ c.tenantId.toList)
    (hrecord : ∀ record synced, e.append = some (record, synced) →
      record.header.reservationKey = c.key) : KeyInv (b.apply i c e) k life where
  calls := by
    intro j c' hc' hkey'
    rcases calls_apply_cases hc hc' with ⟨-, rfl⟩ | ⟨-, hold⟩
    · exact absurd hkey' hkey
    · exact h.calls j c' hold hkey'
  owner := by
    intro j hj
    obtain ⟨c', hc', hkey', htoken⟩ := h.owner j hj
    have hne : i ≠ j := by
      rintro rfl
      rw [hc, some_inj] at hc'
      exact hkey (hc' ▸ hkey')
    refine ⟨c', ?_, hkey', fun hholds => mem_pending_apply hkey (htoken hholds)⟩
    rw [calls_apply_ne hne]
    exact hc'
  index := by
    rw [dedup_apply_of_ne hkey hk htenant]
    exact h.index
  records := by
    intro shard o item hitem hitemKey
    rcases records_apply_cases hitem with hold | ⟨record, synced, happend, -, -, rfl⟩
    · exact h.records shard o item hold hitemKey
    · exact absurd ((hrecord record synced happend).symm.trans hitemKey) hkey

/-! ## Actions of the key's own calls -/

/-- The reservation of `k` is inserted while nothing of `k` is stored outside the index: the index
has no entry, no call waits for its quorum or for its index write, and none failed after its
append. -/
def InsertOk (b : Broker) (k : ReservationKey) : Prop :=
  b.dedup k.dedupKey = none ∧ ∀ c ∈ b.calls, c.key = some k → c.phase.unrecorded = false

variable {p : Phase}

theorem Life.allows_bystander (hi : i ∉ life.owner) (hp : p.Bystander) : life.Allows i p := by
  cases life with
  | free => exact hp
  | recorded shard entry => exact hp.settled entry
  | owned o | stored o =>
    have hne : i ≠ o := by simpa [Life.owner, eq_comm] using hi
    simpa [Life.Allows, hne] using hp

section

variable (h : life.Allows i p)

include h

/-- A call is a bystander, owns the key, stored its record, or finds it in the index. -/
theorem Life.Allows.cases :
    (p.Bystander ∧ i ∉ life.owner) ∨ (life = .owned i ∧ p.Reserving) ∨
      (∃ shard entry, life = .stored i shard entry ∧ p.Storing entry) ∨
      ∃ shard entry, life = .recorded shard entry ∧ p.Settled entry := by
  cases life with
  | free => exact .inl ⟨h, nofun⟩
  | owned o =>
    by_cases hio : i = o
    · subst hio
      exact .inr (.inl ⟨rfl, by simpa [Life.Allows] using h⟩)
    · simp only [Life.Allows, hio, if_false] at h
      exact .inl ⟨h, by simpa [Life.owner, eq_comm] using hio⟩
  | stored o shard entry =>
    by_cases hio : i = o
    · subst hio
      exact .inr (.inr (.inl ⟨shard, entry, rfl, by simpa [Life.Allows] using h⟩))
    · simp only [Life.Allows, hio, if_false] at h
      exact .inl ⟨h, by simpa [Life.owner, eq_comm] using hio⟩
  | recorded shard entry => exact .inr (.inr (.inr ⟨shard, entry, rfl, h⟩))

theorem Life.Allows.not_owner (hp : p.Bystander) : i ∉ life.owner := by
  obtain ⟨-, hnot⟩ | ⟨-, hno⟩ | ⟨-, entry, -, hno⟩ | ⟨shard, entry, rfl, -⟩ := h.cases
  · exact hnot
  · exact absurd hno hp.not_reserving
  · exact absurd hno (hp.not_storing entry)
  · nofun

theorem Life.Allows.reserving (hp : p.Reserving) : life = .owned i := by
  obtain ⟨hno, -⟩ | ⟨rfl, -⟩ | ⟨-, entry, -, hno⟩ | ⟨-, entry, -, hno⟩ := h.cases
  · exact absurd hp hno.not_reserving
  · rfl
  all_goals
    unfold Phase.Reserving at hp
    split at hp
    all_goals first | exact hno.elim | exact hp.elim

/-- A call past its append stored the key's record, or the index names that record. -/
theorem Life.Allows.past (hb : ¬ p.Bystander) (hr : ¬ p.Reserving) :
    (∃ shard entry, life = .stored i shard entry ∧ p.Storing entry) ∨
      ∃ shard entry, life = .recorded shard entry ∧ p.Settled entry :=
  (h.cases.resolve_left fun hno => hb hno.1).resolve_left fun hno => hr hno.2

end

variable {entry : DedupEntry}

theorem Life.indexed_eq_some (h : life.indexed = some entry) :
    ∃ shard, life = .recorded shard entry := by
  cases life with
  | recorded shard entry' =>
    cases h
    exact ⟨shard, rfl⟩
  | _ => cases h

theorem respond_settled (c : Call) {r : PublishResponse} (h : r.entry = entry) :
    (c.respond r).Settled entry := by
  unfold Call.respond
  split
  all_goals exact h

theorem dedup_apply_self (hkey : c.key = some k) :
    (b.apply i c e).dedup k.dedupKey = e.index.or (b.dedup k.dedupKey) := by
  show e.onDedup c.key b.dedup k.dedupKey = _
  unfold Effect.onDedup
  rw [hkey]
  cases e.index with
  | none => rfl
  | some entry => exact update_self _ _ _

/-- An action of a call of the key moves its life to `life'`, if the other calls and the records
stored so far allow it. -/
theorem KeyInv.advance (h : KeyInv b k life) (hc : b.calls[i]? = some c) (hkey : c.key = some k)
    (life' : Life) (hothers : ∀ j p, j ≠ i → life.Allows j p → life'.Allows j p)
    (hown : life'.Allows i e.phase)
    (howner : ∀ j ∈ life'.owner,
      (j = i ∧ (e.phase.holdsToken = true → k ∈ (b.apply i c e).pending)) ∨
      (j ≠ i ∧ j ∈ life.owner ∧ (b.apply i c e).pending = b.pending))
    (hindex : e.index.or life.indexed = life'.indexed)
    (hplace : ∀ x, life.place = some x → life'.place = some x)
    (happend : ∀ record synced, e.append = some (record, synced) → life'.place
      = some (b.shardKey record.topic record.partition, (b.response record).entry)) :
    KeyInv (b.apply i c e) k life' where
  calls := by
    intro j c' hc' hkey'
    rcases calls_apply_cases hc hc' with ⟨rfl, rfl⟩ | ⟨hne, hold⟩
    · exact hown
    · exact hothers j c'.phase hne (h.calls j c' hold hkey')
  owner := by
    intro j hj
    rcases howner j hj with ⟨rfl, htoken⟩ | ⟨hne, hold, hpending⟩
    · exact ⟨_, calls_apply_self hc e, hkey, htoken⟩
    · obtain ⟨c', hc', hkey', htoken⟩ := h.owner j hold
      refine ⟨c', ?_, hkey', ?_⟩
      · rw [calls_apply_ne (Ne.symm hne)]
        exact hc'
      · rw [hpending]
        exact htoken
  index := by
    rw [dedup_apply_self hkey, h.index]
    exact hindex
  records := by
    intro shard o item hitem hitemKey
    rcases records_apply_cases hitem with hold | ⟨record, synced, hsome, rfl, rfl, rfl⟩
    · exact hplace _ (h.records shard o item hold hitemKey)
    · exact happend record synced hsome

theorem pending_apply_keep (hreserve : e.reserve = false) (hrelease : e.release = false) :
    (b.apply i c e).pending = b.pending := by
  show e.onPending c.key b.pending = b.pending
  unfold Effect.onPending
  rw [hreserve, hrelease]
  cases c.key <;> rfl

/-! ### The moves of a life -/

theorem KeyInv.eq_free (h : KeyInv b k life) (hok : b.InsertOk k) (hpending : k ∉ b.pending) :
    life = .free := by
  obtain ⟨hindex, hcalls⟩ := hok
  cases life with
  | free => rfl
  | owned o =>
    obtain ⟨c', hc', hkey', htoken⟩ := h.owner o rfl
    have hphase : c'.phase.Reserving := by
      simpa [Life.Allows] using h.calls o c' hc' hkey'
    exact absurd (htoken hphase.holdsToken) hpending
  | stored o shard entry =>
    obtain ⟨c', hc', hkey', htoken⟩ := h.owner o rfl
    have hphase : c'.phase.Storing entry := by
      simpa [Life.Allows] using h.calls o c' hc' hkey'
    have hrecorded := hcalls c' (mem_of_getElem? hc') hkey'
    -- the owner holds the token, or is one of the calls the condition rules out
    rcases hphase.holdsToken_or with hholds | hopen
    · exact absurd (htoken hholds) hpending
    · rw [hopen] at hrecorded
      cases hrecorded
  | recorded shard entry =>
    rw [h.index] at hindex
    cases hindex

theorem KeyInv.token (h : KeyInv b k life) (hc : b.calls[i]? = some c) (howner : i ∈ life.owner)
    (htoken : c.phase.holdsToken = true) : k ∈ b.pending := by
  obtain ⟨c', hc', -, htoken'⟩ := h.owner i howner
  rw [hc, some_inj] at hc'
  subst hc'
  exact htoken' htoken

section Moves

variable (hc : b.calls[i]? = some c) (hkey : c.key = some k)

include hc hkey

theorem KeyInv.stay (h : KeyInv b k life) (p : Phase) (hown : life.Allows i p)
    (howner : i ∉ life.owner) : KeyInv (b.apply i c { phase := p }) k life := by
  refine h.advance hc hkey life (fun j p' _ hp' => hp') hown ?_ rfl (fun _ hx => hx)
    fun _ _ hx => nomatch hx
  intro j hj
  have hne : j ≠ i := by
    rintro rfl
    exact howner hj
  exact .inr ⟨hne, hj, pending_apply_keep rfl rfl⟩

theorem KeyInv.reserve (h : KeyInv b k .free) :
    KeyInv (b.apply i c { phase := .reserved, reserve := true }) k (.owned i) := by
  refine h.advance hc hkey _ ?_ ?_ ?_ rfl (fun _ hx => nomatch hx)
    fun _ _ hx => nomatch hx
  · intro j p hne hp
    simpa [Life.Allows, hne] using hp
  · simp [Life.Allows, Phase.Reserving]
  · intro j hj
    cases hj
    refine .inl ⟨rfl, fun _ => ?_⟩
    show k ∈ Effect.onPending _ c.key b.pending
    rw [hkey]
    exact mem_insert_self k _

theorem KeyInv.abandon (h : KeyInv b k (.owned i)) :
    KeyInv (b.apply i c { phase := .failed none, release := true }) k .free := by
  refine h.advance hc hkey _ ?_ trivial (fun _ hx => nomatch hx) rfl
    (fun _ hx => nomatch hx) fun _ _ hx => nomatch hx
  intro j p hne hp
  simpa [Life.Allows, hne] using hp

omit hkey in
/-- The owner keeps the token it has. -/
theorem KeyInv.keepToken (h : KeyInv b k life) (howner : life.owner = some i)
    (htoken : e.phase.holdsToken = true →
      c.phase.holdsToken = true ∧ e.reserve = false ∧ e.release = false) :
    ∀ j ∈ some i, (j = i ∧ (e.phase.holdsToken = true → k ∈ (b.apply i c e).pending)) ∨
      (j ≠ i ∧ j ∈ life.owner ∧ (b.apply i c e).pending = b.pending) := by
  intro j hj
  cases hj
  refine .inl ⟨rfl, fun hholds => ?_⟩
  obtain ⟨hheld, hreserve, hrelease⟩ := htoken hholds
  rw [pending_apply_keep hreserve hrelease]
  exact h.token hc howner hheld

theorem KeyInv.own (h : KeyInv b k (.owned i)) (htoken : c.phase.holdsToken = true)
    (hp : p.Reserving) : KeyInv (b.apply i c { phase := p }) k (.owned i) := by
  refine h.advance hc hkey _ (fun j p' _ hp' => hp') ?_
    (h.keepToken hc rfl fun _ => ⟨htoken, rfl, rfl⟩) rfl (fun _ hx => nomatch hx)
    fun _ _ hx => nomatch hx
  simpa [Life.Allows] using hp

theorem KeyInv.store (h : KeyInv b k (.owned i)) (htoken : c.phase.holdsToken = true)
    {record : PreparedRecord} (synced : Bool) (hp : p.Storing (b.response record).entry) :
    KeyInv (b.apply i c { phase := p, append := some (record, synced) }) k
      (.stored i (b.shardKey record.topic record.partition) (b.response record).entry) := by
  refine h.advance hc hkey _ ?_ ?_ (h.keepToken hc rfl fun _ => ⟨htoken, rfl, rfl⟩) rfl
    (fun _ hx => nomatch hx) ?_
  · intro j p' hne hp'
    simpa [Life.Allows, hne] using hp'
  · simpa [Life.Allows] using hp
  · rintro _ _ ⟨⟩
    rfl

variable {shard : ShardKey}

theorem KeyInv.keepStored (h : KeyInv b k (.stored i shard entry)) (p : Phase)
    (hp : p.Storing entry) (release : Bool)
    (htoken : p.holdsToken = true → c.phase.holdsToken = true ∧ release = false) :
    KeyInv (b.apply i c { phase := p, release := release }) k (.stored i shard entry) := by
  refine h.advance hc hkey _ (fun j p' _ hp' => hp') ?_
    (h.keepToken hc rfl fun hholds => ?_) rfl (fun _ hx => hx) fun _ _ hx => nomatch hx
  · simpa [Life.Allows] using hp
  · exact ⟨(htoken hholds).1, rfl, (htoken hholds).2⟩

theorem KeyInv.record (h : KeyInv b k (.stored i shard entry)) (p : Phase) (hp : p.Settled entry) :
    KeyInv (b.apply i c { phase := p, index := some entry }) k (.recorded shard entry) := by
  refine h.advance hc hkey _ ?_ hp (fun _ hx => nomatch hx) rfl (fun _ hx => hx)
    fun _ _ hx => nomatch hx
  intro j p' hne hp'
  simp only [Life.Allows, hne, if_false] at hp'
  exact hp'.settled entry

theorem KeyInv.settle (h : KeyInv b k (.recorded shard entry)) (p : Phase) (hp : p.Settled entry)
    (release : Bool) {index : Option DedupEntry} (hindex : ∀ x ∈ index, x = entry) :
    KeyInv (b.apply i c { phase := p, release := release, index := index }) k
      (.recorded shard entry) := by
  refine h.advance hc hkey _ (fun j p' _ hp' => hp') hp (fun _ hx => nomatch hx) ?_
    (fun _ hx => hx) fun _ _ hx => nomatch hx
  cases index with
  | none => rfl
  | some x => exact congrArg some (hindex x rfl)

/-- **An action of a call moves the life of its key** to a stage again. -/
theorem KeyInv.act (h : KeyInv b k life) (heffect : b.effect c a = some e)
    (hok : a = .insertPending → k ∉ b.pending → b.InsertOk k) :
    ∃ life', KeyInv (b.apply i c e) k life' := by
  have hallow := h.calls i c hc hkey
  -- the moves of a bystander
  have hstay : ∀ p : Phase, c.phase.Bystander → p.Bystander →
      ∃ life', KeyInv (b.apply i c { phase := p }) k life' := by
    intro p hold hnew
    have howner := hallow.not_owner hold
    exact ⟨life, h.stay hc hkey p (Life.allows_bystander howner hnew) howner⟩
  -- the owner before its append
  have hown : ∀ p : Phase, c.phase.Reserving → p.Reserving →
      ∃ life', KeyInv (b.apply i c { phase := p }) k life' := by
    intro p hold hnew
    obtain rfl := hallow.reserving hold
    exact ⟨_, h.own hc hkey hold.holdsToken hnew⟩
  unfold effect at heffect
  split at heffect
  · next hphase =>
    split_ifs at heffect
    cases heffect
    exact hstay _ (hphase ▸ trivial) trivial
  · next ok hphase =>
    split_ifs at heffect
    · rw [hkey] at heffect
      split at heffect
      · next entry hentry =>
        cases heffect
        obtain ⟨shard, rfl⟩ := Life.indexed_eq_some (h.index.symm.trans hentry)
        exact ⟨_, h.settle hc hkey _ (respond_settled c rfl) false (by simp)⟩
      · cases heffect
        exact hstay _ (hphase ▸ trivial) trivial
    · cases heffect
      exact hstay _ (hphase ▸ trivial) trivial
  · next hphase =>
    split_ifs at heffect with hpending <;> cases heffect
    · exact hstay _ (hphase ▸ trivial) trivial
    · rw [hkey, any_some, decide_eq_true_iff] at hpending
      obtain rfl := h.eq_free (hok rfl hpending) hpending
      exact ⟨_, h.reserve hc hkey⟩
  · next draft hphase =>
    cases heffect
    exact hown _ (hphase ▸ trivial) trivial
  · next hphase =>
    cases heffect
    exact hown _ (hphase ▸ trivial) trivial
  · next record hphase =>
    cases heffect
    have hold : c.phase.Reserving := hphase ▸ trivial
    obtain rfl := hallow.reserving hold
    exact ⟨_, h.store hc hkey hold.holdsToken _ ⟨rfl, rfl⟩⟩
  · next record hphase =>
    cases heffect
    exact hown _ (hphase ▸ trivial) trivial
  · next record hphase =>
    cases heffect
    have hold : c.phase.Reserving := hphase ▸ trivial
    obtain rfl := hallow.reserving hold
    exact ⟨_, h.store hc hkey hold.holdsToken _ rfl⟩
  · next ok r hphase =>
    rw [hphase] at hallow
    obtain ⟨shard, entry, rfl, rfl, hfirst⟩ | ⟨_, _, -, hno⟩ := hallow.past id id
    · split_ifs at heffect <;> cases heffect
      · exact ⟨_, h.record hc hkey (.written r) rfl⟩
      · refine ⟨_, h.keepStored hc hkey (.dropping (some r.entry)) rfl false fun _ => ?_⟩
        exact ⟨by rw [hphase]; rfl, rfl⟩
    · exact hno.elim
  · next r hphase =>
    cases heffect
    rw [hphase] at hallow
    obtain ⟨_, _, -, hno⟩ | ⟨shard, entry, rfl, hentry⟩ := hallow.past id id
    · exact hno.elim
    · exact ⟨_, h.settle hc hkey _ (respond_settled c hentry) true (by simp)⟩
  · next r hphase =>
    rw [hphase] at hallow
    obtain ⟨shard, entry, rfl, hstored⟩ | ⟨_, _, -, hno⟩ := hallow.past id id
    · split_ifs at heffect with hcommit
      cases heffect
      -- only `publish_on_leader` defers its index write
      have hrespond : c.respond r = .replicating r := by
        unfold Call.respond
        cases hcaller : c.caller with
        | publish => simp [hcaller, Caller.commitDedup] at hcommit
        | publishOnLeader clustered => rfl
      rw [hrespond]
      exact ⟨_, h.keepStored hc hkey (.replicating r) hstored true nofun⟩
    · exact hno.elim
  · next ok r hphase =>
    rw [hphase] at hallow
    obtain ⟨shard, entry, rfl, hstored, hfirst⟩ | ⟨shard, entry, rfl, hentry⟩ := hallow.past id id
    · have hnot : ¬ (r.duplicate = true ∨ c.key = none) := by simp [hfirst, hkey]
      rw [if_neg hnot, hfirst, if_neg Bool.false_ne_true] at heffect
      split_ifs at heffect <;> cases heffect
      · exact ⟨_, h.keepStored hc hkey (.committing r) ⟨hstored, hfirst⟩ false nofun⟩
      · exact ⟨_, h.keepStored hc hkey (.failed (some r.entry)) hstored false nofun⟩
    · split_ifs at heffect <;> cases heffect
      · exact ⟨_, h.settle hc hkey (.returned r) hentry false (by simp)⟩
      · exact ⟨_, h.settle hc hkey (.committing r) hentry false (by simp)⟩
      · exact ⟨_, h.settle hc hkey (.failed none) trivial false (by simp)⟩
      · exact ⟨_, h.settle hc hkey (.failed (some r.entry)) hentry false (by simp)⟩
  · next ok r hphase =>
    rw [hphase] at hallow
    obtain ⟨shard, entry, rfl, rfl, hfirst⟩ | ⟨shard, entry, rfl, rfl⟩ := hallow.past id id
    · split_ifs at heffect <;> cases heffect
      · exact ⟨_, h.record hc hkey (.releasing r) rfl⟩
      · exact ⟨_, h.keepStored hc hkey (.failed (some r.entry)) rfl false nofun⟩
    · split_ifs at heffect <;> cases heffect
      · exact ⟨_, h.settle hc hkey (.releasing r) rfl false (by simp)⟩
      · exact ⟨_, h.settle hc hkey (.failed (some r.entry)) rfl false (by simp)⟩
  · next r hphase =>
    cases heffect
    rw [hphase] at hallow
    obtain ⟨_, _, -, hno⟩ | ⟨shard, entry, rfl, hentry⟩ := hallow.past id id
    · exact hno.elim
    · exact ⟨_, h.settle hc hkey (.returned r) hentry true (by simp)⟩
  · next stored hphase =>
    cases heffect
    cases stored with
    | none =>
      have hold : c.phase.Reserving := hphase ▸ trivial
      obtain rfl := hallow.reserving hold
      exact ⟨_, h.abandon hc hkey⟩
    | some entry' =>
      rw [hphase] at hallow
      obtain ⟨shard, entry, rfl, hentry⟩ | ⟨_, _, -, hno⟩ := hallow.past id id
      · exact ⟨_, h.keepStored hc hkey (.failed (some entry')) hentry true nofun⟩
      · exact hno.elim
  · cases heffect

end Moves

end Broker

end BetterMQ
