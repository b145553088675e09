import BetterMQ.Partition.Prepare
import BetterMQ.Storage.Durability
import Mathlib.Order.WellFoundedSet

/-!
# Batches that wait for each other

`prepare_publish_batch` takes the reservations of a batch one by one and keeps them while it waits
for the next. Here any number of callers do so at once, one access to the shared state at a step.

* **`sorted_batches_never_deadlock`** — if all batches name their keys in one order, no set of
  callers ever waits for itself;
* **`opposite_orders_deadlock`** — two batches that name two keys in opposite orders come to a state
  in which each waits for the other.

A caller that meets nobody returns what `preparePublishBatch` computes (`free_caller_returns`), so
this is the batch code of the other modules, step by step.
-/

namespace BetterMQ

open List

/-! ## Callers -/

/-- Where a caller of `prepare_publish_batch` stands. -/
inductive PreparePhase where
  /-- At the head of the loop over the requests. -/
  | next
  /-- At the head of the loop of `reserve_dedup`. -/
  | waiting (key : String)
  /-- The key was not pending. -/
  | checked (key : String)
  /-- The index had no entry. -/
  | missed (key : String)
  /-- The reservation is held, or the request has no key. -/
  | reserved (key : Option String)
  | returned
  | failed
  deriving DecidableEq

structure BatchCaller where
  tenantId : String
  /-- The requests that are not prepared yet, the current one first. -/
  todo : List Request
  prepared : PreparedBatch
  /-- The reservation tokens it holds. -/
  tokens : List ReservationKey
  phase : PreparePhase
  deriving DecidableEq

namespace BatchCaller

def start (tenantId : String) (requests : List Request) : BatchCaller :=
  ⟨tenantId, requests, ⟨[], [], []⟩, [], .next⟩

def reservation (c : BatchCaller) (key : String) : ReservationKey := ⟨c.tenantId, key⟩

/-- A request that is settled without a record. -/
def pushSlot (c : BatchCaller) (rest : List Request) (slot : Slot) : BatchCaller :=
  { c with todo := rest, prepared := { c.prepared with slots := c.prepared.slots ++ [slot] }
           phase := .next }

/-- A request that needs a record. -/
def pushRecord (b : Broker) (c : BatchCaller) (rest : List Request) (record : PreparedRecord) :
    BatchCaller :=
  { c with todo := rest, prepared := b.pushRecord c.prepared record, phase := .next }

end BatchCaller

/-- The accesses of a caller to the shared state, with what the environment decides. -/
inductive PrepareAction where
  /-- The head of the loop: `decode_payload`, `validate_publish_request` and `local_owners`. -/
  | enter (valid : Bool)
  /-- Lock `pending` and wait while it contains the key. -/
  | waitPending
  | getDedup (ok : Bool)
  /-- Lock `pending` and insert the key. -/
  | insertPending
  /-- `prepare_record`: an error, or the record it builds. -/
  | prepareRecord (draft : Option PreparedRecord)
  /-- The index row of a key of the batch is written. -/
  | writeDedup (key : String) (entry : DedupEntry)
  /-- A token is released or dropped. -/
  | release (key : String)
  /-- The release of `commit_publish_dedup`; it needs no token. -/
  | releaseCommitted (key : String)
  deriving DecidableEq

namespace BatchCaller

/-- An action of a caller; `none` if it cannot be taken now. -/
def act (b : Broker) (c : BatchCaller) : PrepareAction → Option (Broker × BatchCaller)
  | .enter valid =>
    match c.phase, c.todo with
    | .next, [] => some (b, { c with phase := .returned })
    | .next, request :: rest =>
      if valid then
        match request.idempotencyKey with
        | none => some (b, { c with phase := .reserved none })
        | some key =>
          match c.prepared.owners.lookup key with
          | some messageId =>
            some (b, c.pushSlot rest (.awaiting messageId true (some request.topic)))
          | none => some (b, { c with phase := .waiting key })
      else some (b, { c with phase := .failed })
    | _, _ => none
  | .waitPending =>
    match c.phase with
    | .waiting key =>
      if c.reservation key ∈ b.pending then none else some (b, { c with phase := .checked key })
    | _ => none
  | .getDedup ok =>
    match c.phase, c.todo with
    | .checked key, request :: rest =>
      if ok then
        match b.dedup (c.reservation key).dedupKey with
        | some entry => some (b, c.pushSlot rest (.existing (Broker.existing request.topic entry)))
        | none => some (b, { c with phase := .missed key })
      else some (b, { c with phase := .failed })
    | _, _ => none
  | .insertPending =>
    match c.phase with
    | .missed key =>
      if c.reservation key ∈ b.pending then some (b, { c with phase := .waiting key })
      else some ({ b with pending := insert (c.reservation key) b.pending },
        { c with tokens := c.reservation key :: c.tokens, phase := .reserved (some key) })
    | _ => none
  | .prepareRecord draft =>
    match c.phase, c.todo with
    | .reserved key, _ :: rest =>
      match draft with
      | some draft => some (b, c.pushRecord b rest (Broker.stamp c.tenantId key draft))
      | none => some (b, { c with phase := .failed })
    | _, _ => none
  | .writeDedup key entry =>
    if c.phase = .returned ∧ c.prepared.owners.lookup key ≠ none then
      let dedup := Function.update b.dedup (c.reservation key).dedupKey (some entry)
      some ({ b with dedup }, c)
    else none
  | .release key =>
    if (c.phase = .returned ∨ c.phase = .failed) ∧ c.reservation key ∈ c.tokens then
      some ({ b with pending := b.pending.erase (c.reservation key) },
        { c with tokens := c.tokens.erase (c.reservation key) })
    else none
  | .releaseCommitted key =>
    if c.phase = .returned ∧ c.prepared.owners.lookup key ≠ none then
      some ({ b with pending := b.pending.erase (c.reservation key) }, c)
    else none

/-- The reservation a caller waits for. -/
def waitsOn (c : BatchCaller) : Option ReservationKey :=
  match c.phase with
  | .waiting key => some (c.reservation key)
  | _ => none

end BatchCaller

/-! ## The machine -/

/-- A broker and the callers that prepare batches on it. -/
structure Preparing where
  broker : Broker
  callers : List BatchCaller

namespace Preparing

inductive Event where
  | start (tenantId : String) (requests : List Request)
  | act (i : Nat) (action : PrepareAction)
  deriving DecidableEq

def step (s : Preparing) : Event → Option Preparing
  | .start tenantId requests =>
    some { s with callers := s.callers ++ [.start tenantId requests] }
  | .act i action =>
    (s.callers[i]?).bind fun c => (c.act s.broker action).map fun r => ⟨r.1, s.callers.set i r.2⟩

/-- Caller `i` is in `Condvar::wait` for a key that caller `j` holds. -/
def WaitsFor (s : Preparing) (i j : Nat) : Prop :=
  ∃ c d key, s.callers[i]? = some c ∧ s.callers[j]? = some d ∧ c.waitsOn = some key ∧
    key ∈ s.broker.pending ∧ key ∈ d.tokens

/-- Every caller of the set waits for another one of it. -/
def Deadlocked (s : Preparing) (callers : Set Nat) : Prop :=
  callers.Nonempty ∧ ∀ i ∈ callers, ∃ j ∈ callers, j ≠ i ∧ s.WaitsFor i j

end Preparing

/-! ## Batches in one order -/

/-- The keys of requests. -/
def requestKeys (tenantId : String) (requests : List Request) : List ReservationKey :=
  requests.filterMap fun r => r.idempotencyKey.map fun key => ⟨tenantId, key⟩

variable {tenantId k' k : String}

section Order

variable {order : ReservationKey → ReservationKey → Prop} {rest : List Request} {request : Request}

/-- The keys stand in the order; one key may stand several times in a row. -/
def InOrder (order : ReservationKey → ReservationKey → Prop) (keys : List ReservationKey) : Prop :=
  keys.Pairwise fun k k' => k = k' ∨ order k k'

namespace BatchCaller

def keysLeft (c : BatchCaller) : List ReservationKey := requestKeys c.tenantId c.todo

/-- A caller of an ordered batch: what it holds stands before what it has not got yet. -/
structure Orderly (order : ReservationKey → ReservationKey → Prop) (c : BatchCaller) : Prop where
  sorted : InOrder order c.keysLeft
  below : ∀ k ∈ c.tokens, ∀ k' ∈ c.keysLeft, k = k' ∨ order k k'
  /-- A token is in `local_owners` from the next turn of the loop on. -/
  owned : c.phase = .failed ∨ ∀ k ∈ c.tokens, c.phase = .reserved (some k.idempotencyKey) ∨
    c.prepared.owners.lookup k.idempotencyKey ≠ none
  current : ∀ key, c.phase = .waiting key ∨ c.phase = .checked key ∨ c.phase = .missed key →
    c.reservation key ∈ c.keysLeft.head? ∧ c.prepared.owners.lookup key = none
  reserving : ∀ key, c.phase = .reserved (some key) → c.reservation key ∈ c.keysLeft.head?

variable {c : BatchCaller} {b : Broker} {key : String} {phase : PreparePhase}

/-- No reservation is on its way to `local_owners`. -/
def settled (c : BatchCaller) : Bool :=
  match c.phase with
  | .failed | .reserved _ => false
  | _ => true

theorem orderly_start {requests : List Request}
    (h : InOrder order (requestKeys tenantId requests)) :
    (start tenantId requests).Orderly order where
  sorted := h
  below := nofun
  owned := .inr nofun
  current key hphase := by rcases hphase with h | h | h <;> cases h
  reserving _ hphase := by cases hphase

theorem head_keysLeft (htodo : c.todo = request :: rest)
    (hkey : request.idempotencyKey = some key) : c.reservation key ∈ c.keysLeft.head? := by
  unfold keysLeft requestKeys
  rw [htodo, filterMap_cons, hkey]
  rfl

theorem keysLeft_tail (htodo : c.todo = request :: rest) :
    (requestKeys c.tenantId rest).Sublist c.keysLeft := by
  unfold keysLeft requestKeys
  rw [htodo]
  exact (sublist_cons_self request rest).filterMap _

namespace Orderly

section

variable (h : c.Orderly order)

include h

/-- Between two reservations every token is in `local_owners`. -/
theorem lookup_ne_none (hsettled : c.settled = true) :
    ∀ k ∈ c.tokens, c.prepared.owners.lookup k.idempotencyKey ≠ none := by
  unfold settled at hsettled
  rcases h.owned with heq | howned
  · simp [heq] at hsettled
  · exact fun k hk => (howned k hk).resolve_left fun heq => by simp [heq] at hsettled

theorem fail : ({ c with phase := .failed } : BatchCaller).Orderly order where
  __ := h
  owned := .inl rfl
  current key hkey := by rcases hkey with hkey | hkey | hkey <;> cases hkey
  reserving key hkey := by cases hkey

theorem leave (hnext : c.phase = .next) (hphase : phase = .returned ∨ phase = .reserved none) :
    ({ c with phase } : BatchCaller).Orderly order where
  __ := h
  owned := .inr fun k hk => .inr (h.lookup_ne_none (by rw [settled, hnext]) k hk)
  current key hkey := by
    rcases hphase with rfl | rfl <;> rcases hkey with hkey | hkey | hkey <;> cases hkey
  reserving key hkey := by rcases hphase with rfl | rfl <;> cases hkey

theorem reserve (hsettled : c.settled = true)
    (hkey : c.reservation key ∈ c.keysLeft.head? ∧ c.prepared.owners.lookup key = none)
    (hphase : phase = .waiting key ∨ phase = .checked key ∨ phase = .missed key) :
    ({ c with phase } : BatchCaller).Orderly order where
  __ := h
  owned := .inr fun k hk => .inr (h.lookup_ne_none hsettled k hk)
  current key' hkey' := by
    rcases hphase with rfl | rfl | rfl <;> rcases hkey' with heq | heq | heq <;> cases heq <;>
      exact hkey
  reserving key' hkey' := by rcases hphase with rfl | rfl | rfl <;> cases hkey'

theorem pushSlot (hsettled : c.settled = true) (htodo : c.todo = request :: rest) (slot : Slot) :
    (c.pushSlot rest slot).Orderly order where
  sorted := List.Pairwise.sublist (keysLeft_tail (c := c) htodo) h.sorted
  below k hk k' hk' := h.below k hk k' ((keysLeft_tail htodo).subset hk')
  owned := .inr fun k hk => .inr (h.lookup_ne_none hsettled k hk)
  current key hkey := by rcases hkey with hkey | hkey | hkey <;> cases hkey
  reserving key hkey := by cases hkey

/-- The key that is reserved now stands before all others left. -/
theorem insert (hphase : c.phase = .missed key) :
    ({ c with tokens := c.reservation key :: c.tokens, phase := .reserved (some key) } :
      BatchCaller).Orderly order where
  sorted := h.sorted
  below := by
    intro k hk k' hk'
    rcases mem_cons.mp hk with rfl | hold
    · obtain ⟨hhead, -⟩ := h.current key (.inr (.inr hphase))
      obtain ⟨rest, hrest⟩ := head?_eq_some_iff.mp hhead
      have hsorted := h.sorted
      change k' ∈ c.keysLeft at hk'
      rw [hrest] at hsorted hk'
      rcases mem_cons.mp hk' with rfl | hlater
      · exact .inl rfl
      · exact rel_of_pairwise_cons hsorted hlater
    · exact h.below k hold k' hk'
  owned := by
    right
    intro k hk
    rcases mem_cons.mp hk with rfl | hold
    · exact .inl rfl
    · exact .inr (h.lookup_ne_none (by rw [settled, hphase]) k hold)
  current key' hkey' := by rcases hkey' with hkey' | hkey' | hkey' <;> cases hkey'
  reserving key' hkey' := by
    cases hkey'
    exact (h.current key (.inr (.inr hphase))).1

theorem pushRecord {key : Option String} (hphase : c.phase = .reserved key)
    (htodo : c.todo = request :: rest) (draft : PreparedRecord) :
    (c.pushRecord b rest (Broker.stamp c.tenantId key draft)).Orderly order where
  sorted := List.Pairwise.sublist (keysLeft_tail (c := c) htodo) h.sorted
  below k hk k' hk' := h.below k hk k' ((keysLeft_tail htodo).subset hk')
  owned := by
    refine .inr fun k hk => .inr ?_
    have howned := (h.owned.resolve_left (by rw [hphase]; exact nofun)) k hk
    show List.lookup _ (b.pushRecord c.prepared _).owners ≠ none
    rw [Broker.lookup_pushRecord]
    -- the record carries the key of its reservation
    split
    · exact Option.some_ne_none _
    · next hne =>
      refine howned.resolve_left fun heq => hne ?_
      rw [hphase] at heq
      cases heq
      rfl
  current key hkey := by rcases hkey with hkey | hkey | hkey <;> cases hkey
  reserving key hkey := by cases hkey

theorem release (k : ReservationKey) :
    ({ c with tokens := c.tokens.erase k } : BatchCaller).Orderly order where
  __ := h
  below k' hk' := h.below k' (mem_of_mem_erase hk')
  owned := h.owned.imp_right fun howned k' hk' => howned k' (mem_of_mem_erase hk')

/-- **One action** keeps a caller orderly. -/
theorem act {a : PrepareAction} {b' : Broker} {c' : BatchCaller}
    (hact : c.act b a = some (b', c')) : c'.Orderly order := by
  cases a with
  | enter valid =>
    rw [BatchCaller.act] at hact
    split at hact
    · next hphase _ =>
      cases hact
      exact h.leave hphase (.inl rfl)
    · next request rest hphase htodo =>
      have hsettled : c.settled = true := by rw [settled, hphase]
      split at hact
      · split at hact
        · cases hact
          exact h.leave hphase (.inr rfl)
        · next key hkey =>
          split at hact
          · cases hact
            exact h.pushSlot hsettled htodo _
          · next hlookup =>
            cases hact
            exact h.reserve hsettled ⟨head_keysLeft htodo hkey, hlookup⟩ (.inl rfl)
      · cases hact
        exact h.fail
    · cases hact
  | waitPending =>
    rw [BatchCaller.act] at hact
    split at hact
    · next key hphase =>
      split at hact
      · cases hact
      · cases hact
        exact h.reserve (by rw [settled, hphase]) (h.current key (.inl hphase)) (.inr (.inl rfl))
    · cases hact
  | getDedup ok =>
    rw [BatchCaller.act] at hact
    split at hact
    · next key request rest hphase htodo =>
      have hsettled : c.settled = true := by rw [settled, hphase]
      split at hact
      · split at hact
        · cases hact
          exact h.pushSlot hsettled htodo _
        · cases hact
          exact h.reserve hsettled (h.current key (.inr (.inl hphase))) (.inr (.inr rfl))
      · cases hact
        exact h.fail
    · cases hact
  | insertPending =>
    rw [BatchCaller.act] at hact
    split at hact
    · next key hphase =>
      split at hact
      · cases hact
        exact h.reserve (by rw [settled, hphase]) (h.current key (.inr (.inr hphase))) (.inl rfl)
      · cases hact
        exact h.insert hphase
    · cases hact
  | prepareRecord draft =>
    rw [BatchCaller.act] at hact
    split at hact
    · next key request rest hphase htodo =>
      split at hact
      · cases hact
        exact h.pushRecord hphase htodo _
      · cases hact
        exact h.fail
    · cases hact
  | writeDedup | releaseCommitted =>
    rw [BatchCaller.act] at hact
    split at hact
    · cases hact
      exact h
    · cases hact
  | release key =>
    rw [BatchCaller.act] at hact
    split at hact
    · cases hact
      exact h.release _
    · cases hact

/-- A caller waits for a key that stands after all those it holds. -/
theorem order_of_waitsOn {k w : ReservationKey}
    (hk : k ∈ c.tokens) (hw : c.waitsOn = some w) : order k w := by
  unfold waitsOn at hw
  split at hw
  · next key hphase =>
    cases hw
    obtain ⟨hhead, hlookup⟩ := h.current key (.inl hphase)
    rcases h.below k hk _ (mem_of_mem_head? hhead) with rfl | hlt
    · -- it does not wait for its own
      exact absurd hlookup (h.lookup_ne_none (by rw [settled, hphase]) _ hk)
    · exact hlt
  · cases hw

end

end Orderly

end BatchCaller

namespace Preparing

/-- A batch names its keys in the order. A key that comes back counts again: if its first request
was found in the index, the batch has no token for it and waits for it once more. -/
def StartsInOrder (order : ReservationKey → ReservationKey → Prop) (_ : Preparing) : Event → Prop
  | .start tenantId requests => InOrder order (requestKeys tenantId requests)
  | .act _ _ => True

theorem orderly_step {s s' : Preparing} {e : Event} (hgood : StartsInOrder order s e)
    (hstep : s.step e = some s') (h : ∀ c ∈ s.callers, c.Orderly order) :
    ∀ c ∈ s'.callers, c.Orderly order := by
  cases e with
  | start tenantId requests =>
    cases hstep
    intro c hc
    rcases mem_snoc.mp hc with hold | rfl
    · exact h c hold
    · exact BatchCaller.orderly_start hgood
  | act i action =>
    obtain ⟨c, hget, hmap⟩ := Option.bind_eq_some_iff.mp hstep
    obtain ⟨⟨b', c'⟩, hact, rfl⟩ := Option.map_eq_some_iff.mp hmap
    intro d hd
    rcases mem_or_eq_of_mem_set hd with hold | rfl
    · exact h d hold
    · exact (h c (mem_of_getElem? hget)).act hact

theorem not_deadlocked [IsStrictOrder ReservationKey order] {s : Preparing}
    (h : ∀ c ∈ s.callers, c.Orderly order) (callers : Set Nat) : ¬s.Deadlocked callers := by
  rintro ⟨⟨i, hi⟩, hwaits⟩
  let waited : Set ReservationKey :=
    {k | ∃ i ∈ callers, ∃ c, s.callers[i]? = some c ∧ c.waitsOn = some k}
  have hfinite : waited.Finite := by
    refine (finite_toSet (s.callers.filterMap BatchCaller.waitsOn)).subset ?_
    rintro k ⟨i, -, c, hget, hk⟩
    exact mem_filterMap.mpr ⟨c, mem_of_getElem? hget, hk⟩
  obtain ⟨-, -, -, c, -, k, hget, -, hk, -⟩ := hwaits i hi
  -- the holder of a key waits for a later one, and so on without end
  have hwf : waited.WellFoundedOn (Function.swap order) := hfinite.wellFoundedOn
  refine hwf.induction ⟨i, hi, c, hget, hk⟩ (P := fun _ => False) ?_
  rintro k ⟨i, hi, c, hget, hk⟩ ih
  obtain ⟨j, hj, -, c', d, w, hget', hgetd, hw, -, htoken⟩ := hwaits i hi
  cases Option.some.inj (hget.symm.trans hget')
  cases Option.some.inj (hk.symm.trans hw)
  obtain ⟨-, -, -, d', -, w', hgetd', -, hw', -⟩ := hwaits j hj
  cases Option.some.inj (hgetd.symm.trans hgetd')
  exact ih w' ⟨j, hj, d, hgetd, hw'⟩ ((h d (mem_of_getElem? hgetd)).order_of_waitsOn htoken hw')

end Preparing

end Order

/-- **Batches in one order never deadlock.** -/
theorem sorted_batches_never_deadlock {order : ReservationKey → ReservationKey → Prop}
    [IsStrictOrder ReservationKey order] {b : Broker} {events : List Preparing.Event}
    {s : Preparing} (h : Run Preparing.step (Preparing.StartsInOrder order) ⟨b, []⟩ events s) :
    ∀ callers, ¬s.Deadlocked callers := by
  have horderly := Run.invariant (fun s : Preparing => ∀ c ∈ s.callers, c.Orderly order) ?_ h ?_
  · exact Preparing.not_deadlocked horderly
  · exact fun s e s' hs hgood hstep => Preparing.orderly_step hgood hstep hs
  · exact nofun

instance {order : ReservationKey → ReservationKey → Prop} [DecidableRel order] (s : Preparing) :
    (e : Preparing.Event) → Decidable (s.StartsInOrder order e)
  | .start tenantId requests =>
    inferInstanceAs (Decidable (List.Pairwise _ (requestKeys tenantId requests)))
  | .act _ _ => .isTrue trivial

/-- An order of keys. -/
def shorter (k k' : ReservationKey) : Prop := k.idempotencyKey.length < k'.idempotencyKey.length

instance : DecidableRel shorter := fun _ _ => inferInstanceAs (Decidable (_ < _))

instance : IsStrictOrder ReservationKey shorter where
  irrefl _ := Nat.lt_irrefl _
  trans _ _ _ := Nat.lt_trans

/-- Two callers with the same keys: the second waits for the first, which goes on. -/
def sameOrder : List Preparing.Event :=
  [.start "t" [⟨"orders", some "a"⟩, ⟨"orders", some "bb"⟩],
    .start "t" [⟨"orders", some "a"⟩, ⟨"orders", some "bb"⟩],
    .act 0 (.enter true), .act 0 .waitPending, .act 0 (.getDedup true), .act 0 .insertPending,
    .act 0 (.prepareRecord (some ⟨"orders", 0, plainRecord 1, [], none⟩)),
    .act 1 (.enter true), .act 0 (.enter true)]

theorem sameOrder_never_deadlocks :
    ∃ s, Run Preparing.step (Preparing.StartsInOrder shorter) ⟨.fresh true .always, []⟩
        sameOrder s ∧
      s.callers.map BatchCaller.waitsOn = [some ⟨"t", "bb"⟩, some ⟨"t", "a"⟩] ∧
      ∀ callers, ¬s.Deadlocked callers := by
  exact exists_and₂_of (by decide +kernel) fun s hrun _ => sorted_batches_never_deadlock hrun

/-- Two callers with two keys in opposite orders, in turns. -/
def oppositeOrders : List Preparing.Event :=
  [.start "t" [⟨"orders", some "a"⟩, ⟨"orders", some "b"⟩],
    .start "t" [⟨"orders", some "b"⟩, ⟨"orders", some "a"⟩],
    .act 0 (.enter true), .act 0 .waitPending, .act 0 (.getDedup true), .act 0 .insertPending,
    .act 1 (.enter true), .act 1 .waitPending, .act 1 (.getDedup true), .act 1 .insertPending,
    .act 0 (.prepareRecord (some ⟨"orders", 0, plainRecord 1, [], none⟩)), .act 0 (.enter true),
    .act 1 (.prepareRecord (some ⟨"orders", 0, plainRecord 2, [], none⟩)), .act 1 (.enter true)]

/-- **Batches in opposite orders deadlock**: each holds its first key and waits for the other's. -/
theorem opposite_orders_deadlock : ∃ s, AnyRun Preparing.step
    ⟨.fresh true .always, []⟩ oppositeOrders s ∧ s.Deadlocked {0, 1} := by
  obtain ⟨s, hrun, c, hc, d, hd, hwaits, hwaits', hpending, hpending', htoken, htoken'⟩ : ∃ s,
      AnyRun Preparing.step ⟨.fresh true .always, []⟩ oppositeOrders s ∧
      ∃ c, s.callers[0]? = some c ∧ ∃ d, s.callers[1]? = some d ∧
        c.waitsOn = some ⟨"t", "b"⟩ ∧ d.waitsOn = some ⟨"t", "a"⟩ ∧
        (⟨"t", "b"⟩ : ReservationKey) ∈ s.broker.pending ∧
        (⟨"t", "a"⟩ : ReservationKey) ∈ s.broker.pending ∧
        (⟨"t", "b"⟩ : ReservationKey) ∈ d.tokens ∧ (⟨"t", "a"⟩ : ReservationKey) ∈ c.tokens := by
    decide +kernel
  refine ⟨s, hrun, ⟨0, .inl rfl⟩, ?_⟩
  rintro i (rfl | rfl)
  · exact ⟨1, .inr rfl, Nat.one_ne_zero, c, d, _, hc, hd, hwaits, hpending, htoken⟩
  · exact ⟨0, .inl rfl, Nat.zero_ne_one, d, c, _, hd, hc, hwaits', hpending', htoken'⟩

/-! ## A caller that meets nobody -/

namespace BatchCaller

/-- One action, whichever it is. -/
def Progress (x y : Broker × BatchCaller) : Prop := ∃ a, x.2.act x.1 a = some y

/-- A caller between two requests. -/
def between (tenantId : String) (rest : List Request) (p : PreparedBatch) : BatchCaller :=
  ⟨tenantId, rest, p, p.owners.map fun o => ⟨tenantId, o.1⟩, .next⟩

end BatchCaller

namespace Broker

open BatchCaller

/-- The broker with the reservations of a caller. -/
def holding (b : Broker) (tenantId : String) (p : PreparedBatch) : Broker :=
  { b with pending := (p.owners.map fun o => ⟨tenantId, o.1⟩).foldr insert b.pending }

variable {b : Broker} {tenantId : String} {p p' : PreparedBatch} {request : Request}
  {fate : RequestFate} {rest : List Request}

theorem mem_holding {k : ReservationKey} : k ∈ (b.holding tenantId p).pending ↔
    k ∈ b.pending ∨ ∃ o ∈ p.owners, k = ⟨tenantId, o.1⟩ := by
  unfold holding
  induction p.owners with
  | nil => simp
  | cons o os ih =>
    simp only [map_cons, foldr_cons, Finset.mem_insert, ih, mem_cons, exists_eq_or_imp]
    tauto

/-- **One request**: as in `prepareOne`, if nobody else has its key. -/
theorem prepareOne_progress (h : b.prepareOne tenantId p request fate = some p')
    (hfree : ∀ key, request.idempotencyKey = some key → ⟨tenantId, key⟩ ∉ b.pending) :
    Relation.ReflTransGen Progress (b.holding tenantId p, between tenantId (request :: rest) p)
      (b.holding tenantId p', between tenantId rest p') := by
  unfold prepareOne at h
  split at h
  swap
  · cases h
  split at h
  · next hkey =>
    obtain ⟨draft, -, rfl⟩ := Option.map_eq_some_iff.mp h
    have henter : (between tenantId (request :: rest) p).act (b.holding tenantId p) (.enter true)
        = some (b.holding tenantId p,
          { between tenantId (request :: rest) p with phase := .reserved none }) := by
      simp only [act, between, hkey, if_true]
    exact .head ⟨_, henter⟩ (.single ⟨.prepareRecord (some draft), rfl⟩)
  · next key hkey =>
    split at h
    · next messageId hlookup =>
      cases h
      refine .single ⟨.enter true, ?_⟩
      simp only [act, between, hkey, hlookup, if_true]
      rfl
    · next hlookup =>
      have henter : (between tenantId (request :: rest) p).act (b.holding tenantId p) (.enter true)
          = some (b.holding tenantId p,
            { between tenantId (request :: rest) p with phase := .waiting key }) := by
        simp only [act, between, hkey, hlookup, if_true]
      have hnot : (⟨tenantId, key⟩ : ReservationKey) ∉ (b.holding tenantId p).pending := by
        rw [mem_holding]
        rintro (hother | ⟨o, ho, heq⟩)
        · exact hfree key hkey hother
        · cases heq
          exact bne_iff_ne.mp (lookup_eq_none_iff.mp hlookup o ho) rfl
      have hwait : BatchCaller.act (b.holding tenantId p)
          { between tenantId (request :: rest) p with phase := .waiting key } .waitPending
          = some (b.holding tenantId p,
            { between tenantId (request :: rest) p with phase := .checked key }) :=
        if_neg hnot
      refine .head ⟨_, henter⟩ (.head ⟨_, hwait⟩ ?_)
      split at h
      · split at h
        · next entry hentry =>
          cases h
          refine .single ⟨.getDedup true, ?_⟩
          simp only [act, between, reservation, if_true]
          rw [show (b.holding tenantId p).dedup = b.dedup from rfl, hentry]
          rfl
        · next hentry =>
          obtain ⟨draft, -, rfl⟩ := Option.map_eq_some_iff.mp h
          have hmiss : BatchCaller.act (b.holding tenantId p)
              { between tenantId (request :: rest) p with phase := .checked key } (.getDedup true)
              = some (b.holding tenantId p,
                { between tenantId (request :: rest) p with phase := .missed key }) := by
            simp only [act, between, reservation, if_true]
            rw [show (b.holding tenantId p).dedup = b.dedup from rfl, hentry]
          refine .head ⟨_, hmiss⟩ (.head ⟨.insertPending, if_neg hnot⟩ ?_)
          exact .single ⟨.prepareRecord (some draft), rfl⟩
      · cases h

variable {work : Requests}

/-- **The loop**: a caller that meets nobody prepares what `prepareLoop` says. -/
theorem prepareLoop_progress (rest : List Request) (h : b.prepareLoop tenantId p work = some p')
    (hfree : ∀ k ∈ requestKeys tenantId (work.map Prod.fst), k ∉ b.pending) :
    Relation.ReflTransGen Progress
      (b.holding tenantId p, between tenantId (work.map Prod.fst ++ rest) p)
      (b.holding tenantId p', between tenantId rest p') := by
  induction work generalizing p with
  | nil =>
    cases h
    exact .refl
  | cons x work ih =>
    obtain ⟨p₁, hone, hloop⟩ := Option.bind_eq_some_iff.mp h
    have hsub : (requestKeys tenantId (work.map Prod.fst)).Sublist
        (requestKeys tenantId ((x :: work).map Prod.fst)) :=
      (sublist_cons_self _ _).filterMap _
    refine (prepareOne_progress hone fun key hkey => hfree _ ?_).trans
      (ih hloop fun k hk => hfree k (hsub.subset hk))
    exact mem_filterMap.mpr ⟨x.1, .head _, by rw [hkey]; rfl⟩

/-- **The whole batch**: a caller that meets nobody returns what `preparePublishBatch` computes. -/
theorem preparePublishBatch_progress (h : b.preparePublishBatch tenantId work = some p')
    (hfree : ∀ k ∈ requestKeys tenantId (work.map Prod.fst), k ∉ b.pending) :
    Relation.ReflTransGen Progress (b, .start tenantId (work.map Prod.fst))
      (b.holding tenantId p', { between tenantId [] p' with phase := .returned }) := by
  have hloop := prepareLoop_progress [] h hfree
  rw [append_nil] at hloop
  exact hloop.tail ⟨.enter true, rfl⟩

end Broker

namespace Preparing

open BatchCaller

theorem run_of_progress {x y : Broker × BatchCaller} (h : Relation.ReflTransGen Progress x y)
    (callers : List BatchCaller) {i : Nat} (hget : callers[i]? = some x.2) :
    ∃ events, AnyRun step ⟨x.1, callers⟩ events ⟨y.1, callers.set i y.2⟩ := by
  obtain ⟨hlt, hx⟩ := List.getElem?_eq_some_iff.mp hget
  induction h with
  | refl =>
    rw [← hx, set_getElem_self]
    exact ⟨[], .nil _⟩
  | tail _ hlast ih =>
    obtain ⟨events, hrun⟩ := ih
    obtain ⟨a, hact⟩ := hlast
    refine ⟨events ++ [.act i a], hrun.snoc trivial ?_⟩
    simp only [step, getElem?_set_self hlt, Option.bind_some, hact, Option.map_some, set_set]

/-- **A caller whose keys are free returns**: among any other callers it comes, step by step, to
what `preparePublishBatch` computes, and holds its reservations. -/
theorem free_caller_returns {b : Broker} {p : PreparedBatch}
    {work : Requests} {callers : List BatchCaller} {i : Nat}
    (hget : callers[i]? = some (.start tenantId (work.map Prod.fst)))
    (h : b.preparePublishBatch tenantId work = some p)
    (hfree : ∀ k ∈ requestKeys tenantId (work.map Prod.fst), k ∉ b.pending) :
    ∃ events, AnyRun step ⟨b, callers⟩ events ⟨b.holding tenantId p,
      callers.set i { between tenantId [] p with phase := .returned }⟩ :=
  run_of_progress (Broker.preparePublishBatch_progress h hfree) callers hget

/-- The records of two requests with keys. -/
def twoKeys : Requests :=
  [(⟨"orders", some "a"⟩, ⟨true, true, true, some ⟨"orders", 0, plainRecord 1, [], none⟩⟩),
    (⟨"orders", some "b"⟩, ⟨true, true, true, some ⟨"orders", 0, plainRecord 2, [], none⟩⟩)]

/-- A batch of two beside a caller that holds a third key. -/
def besideAnother : Preparing :=
  ⟨{ Broker.fresh true .always with pending := {⟨"t", "c"⟩} },
    [⟨"t", [], ⟨[], [], []⟩, [⟨"t", "c"⟩], .returned⟩, .start "t" (twoKeys.map Prod.fst)]⟩

theorem caller_returns_beside_another : ∃ p,
    besideAnother.broker.preparePublishBatch "t" twoKeys = some p ∧ p.owners.length = 2 ∧
    ∃ events, AnyRun step besideAnother events ⟨besideAnother.broker.holding "t" p,
        besideAnother.callers.set 1 { between "t" [] p with phase := .returned }⟩ :=
  exists_and₂_of (by decide +kernel) fun _ hprepare _ =>
    free_caller_returns rfl hprepare (by decide)

end Preparing

end BetterMQ
