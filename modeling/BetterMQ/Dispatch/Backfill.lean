import BetterMQ.Dispatch.Lane

/-!
# Enqueueing what is left (`enqueue` and `backfill_pending` in `broker-dispatch/src/worker.rs`)

`backfill_pending` walks over the topics of the node's own tenant, each partition that the node
leads in pages, and enqueues every message that is committed, has a destination and is not complete.

* **`walkPages_eq`** — the walk visits every message of the topic once, in the order of offsets;
* **`mem_enqueueAll`** — with room and nothing in flight every job of a list is enqueued;
* **`backfill_enqueues_iff`** — which pending records one call enqueues: those under `__direct` or
  the topic of a queue of the node's tenant, in the log that the node opens for the topic, and not
  complete in the lane of that tenant.
-/

namespace BetterMQ

open List ShardLog Tenants

/-! ## The queue of jobs -/

structure DeliveryJob where
  topic : String
  partition : UInt32
  offset : Nat
  messageId : Uuid
  deriving DecidableEq

/-- The key of a job in `in_flight_jobs`. -/
structure JobKey where
  topic : String
  partition : UInt32
  offset : Nat
  deriving DecidableEq

def DeliveryJob.key (job : DeliveryJob) : JobKey := ⟨job.topic, job.partition, job.offset⟩

/-- `DeliveryJob::live` for a message. -/
def DeliveryJob.live (msg : StoredMessage) : DeliveryJob :=
  ⟨msg.topic, msg.partition, msg.offset, msg.id⟩

/-- What `enqueue` reads and writes. -/
structure Intake where
  workersEnabled : Bool
  stop : Bool
  draining : Bool
  /-- The bound of the channel. -/
  capacity : Nat
  queue : List DeliveryJob
  inFlight : List JobKey
  deriving DecidableEq

namespace Intake

/-- `enqueue` goes on. -/
def isOpen (q : Intake) : Bool := q.workersEnabled && !q.stop && !q.draining

def enqueue (leads : UInt32 → Bool) (q : Intake) (job : DeliveryJob) : Intake :=
  if !q.isOpen then q
  else if !leads job.partition then q
  else if job.key ∈ q.inFlight then q
  else if q.queue.length < q.capacity then
    { q with queue := q.queue ++ [job], inFlight := job.key :: q.inFlight }
  -- the channel is full: the key is taken out again
  else q

def enqueueAll (leads : UInt32 → Bool) (q : Intake) (jobs : List DeliveryJob) : Intake :=
  jobs.foldl (enqueue leads) q

variable {leads : UInt32 → Bool} {q : Intake} {job : DeliveryJob} {jobs : List DeliveryJob}

theorem enqueueAll_closed (h : q.isOpen = false) : q.enqueueAll leads jobs = q := by
  induction jobs with
  | nil => rfl
  | cons job jobs ih =>
    show (q.enqueue leads job).enqueueAll leads jobs = q
    have hsame : q.enqueue leads job = q := by
      unfold enqueue
      rw [h]
      rfl
    rw [hsame, ih]

/-- The keys in flight are those of the queued jobs, with room for `n` more. -/
structure Ready (q : Intake) (n : Nat) : Prop where
  isOpen : q.isOpen = true
  room : q.queue.length + n ≤ q.capacity
  inFlight : ∀ key, key ∈ q.inFlight ↔ key ∈ q.queue.map DeliveryJob.key

/-- **One job**: it is in the queue afterwards, and nothing else is new. -/
theorem Ready.enqueue {n : Nat} (h : q.Ready (n + 1)) (hleads : leads job.partition = true)
    (hkey : ∀ job' ∈ q.queue, job'.key = job.key → job' = job) :
    (q.enqueue leads job).Ready n ∧
      ∀ job', job' ∈ (q.enqueue leads job).queue ↔ job' ∈ q.queue ∨ job' = job := by
  have hroom := h.room
  unfold Intake.enqueue
  rw [h.isOpen, hleads]
  simp only [Bool.not_true, Bool.false_eq_true, if_false]
  split
  · next hin =>
    -- the job with this key that is in flight is the same one
    obtain ⟨job', hmem, heq⟩ := mem_map.mp ((h.inFlight job.key).mp hin)
    obtain rfl := hkey job' hmem heq
    refine ⟨⟨h.isOpen, by omega, h.inFlight⟩, fun job'' => ⟨.inl, ?_⟩⟩
    rintro (hold | rfl)
    · exact hold
    · exact hmem
  · rw [if_pos (by omega)]
    refine ⟨⟨h.isOpen, ?_, fun key => ?_⟩, fun job' => ?_⟩
    · show (q.queue ++ [job]).length + n ≤ q.capacity
      rw [length_append, length_singleton]
      omega
    · simp [h.inFlight key, or_comm, eq_comm]
    · rw [mem_append, mem_singleton]

/-- **All jobs of a list**, if a key stands for one job. -/
theorem Ready.mem_enqueueAll (h : q.Ready jobs.length)
    (hleads : ∀ job ∈ jobs, leads job.partition = true)
    (hkeys : ∀ job ∈ q.queue ++ jobs, ∀ job' ∈ q.queue ++ jobs, job.key = job'.key → job = job') :
    job ∈ (q.enqueueAll leads jobs).queue ↔ job ∈ q.queue ∨ job ∈ jobs := by
  induction jobs generalizing q with
  | nil => simp [enqueueAll]
  | cons first jobs ih =>
    have hfirst : first ∈ q.queue ++ first :: jobs :=
      mem_append_right _ (.head _)
    obtain ⟨hready, hmem⟩ := h.enqueue (hleads first (.head _))
      fun job' hold heq => hkeys job' (mem_append_left _ hold) first hfirst heq
    have hsub : ∀ job' ∈ (q.enqueue leads first).queue ++ jobs,
        job' ∈ q.queue ++ first :: jobs := by
      intro job' hin
      rcases mem_append.mp hin with hin | hin
      · rcases (hmem job').mp hin with hold | rfl
        · exact mem_append_left _ hold
        · exact hfirst
      · exact mem_append_right _ (.tail _ hin)
    show job ∈ ((q.enqueue leads first).enqueueAll leads jobs).queue ↔ _
    rw [ih hready (fun job' hin => hleads job' (.tail _ hin))
      (fun a ha b hb => hkeys a (hsub a ha) b (hsub b hb)), hmem, mem_cons, or_assoc]

end Intake

/-! ## Walking over a topic -/

/-- A walk over the messages of a topic, a page at a time, up to an empty page or one that is not
full. -/
def walkPages {σ : Type} (log : ShardLog) (topic : String) (page : Nat)
    (visit : σ → Nat × Item → σ) : Nat → Nat → σ → σ
  | 0, _, acc => acc
  | fuel + 1, start, acc =>
    let messages := log.listTopicMessagesFrom topic start page
    if messages = [] then acc
    else
      let acc := messages.foldl visit acc
      let start := messages.foldl (fun start x => max start (x.1 + 1)) start
      if messages.length < page then acc
      else walkPages log topic page visit fuel start acc

theorem foldl_max_sorted {messages : List (Nat × Item)}
    (hsorted : messages.Pairwise fun x y => x.1 < y.1) {start : Nat}
    (hstart : ∀ x ∈ messages, start ≤ x.1) {last : Nat × Item}
    (hlast : messages.getLast? = some last) :
    messages.foldl (fun start x => max start (x.1 + 1)) start = last.1 + 1 := by
  induction messages generalizing start with
  | nil => cases hlast
  | cons x messages ih =>
    obtain ⟨hbefore, hsorted⟩ := pairwise_cons.mp hsorted
    have hx : max start (x.1 + 1) = x.1 + 1 := by
      have := hstart x (.head _)
      omega
    rw [foldl_cons, hx]
    cases messages with
    | nil =>
      cases hlast
      rfl
    | cons y messages =>
      exact ih hsorted hbefore hlast

variable {topic : String}

/-- **The walk visits every message once.** Every page but the last one is full, so the messages are
rounds enough. -/
theorem walkPages_eq {σ : Type} {log : ShardLog} {page : Nat} (hpage : 0 < page)
    (visit : σ → Nat × Item → σ) (fuel start : Nat) (acc : σ)
    (hfuel : (log.topicFrom topic start).length < fuel) :
    walkPages log topic page visit fuel start acc
      = (log.topicFrom topic start).foldl visit acc := by
  induction fuel generalizing start acc with
  | zero => exact absurd hfuel (Nat.not_lt_zero _)
  | succ fuel ih =>
    rw [walkPages, listTopicMessagesFrom_eq]
    set messages := (log.topicFrom topic start).take page with hmessages
    split
    · next hnil =>
      have hnone : log.topicFrom topic start = [] := by
        rcases take_eq_nil_iff.mp hnil with h | h
        · omega
        · exact h
      rw [hnone]
      rfl
    · next hsome =>
      obtain ⟨last, hlast⟩ := Option.ne_none_iff_exists'.mp (mt getLast?_eq_none_iff.mp hsome)
      have hsorted : messages.Pairwise fun x y => x.1 < y.1 :=
        (log.topicFrom_sorted topic start).sublist (take_sublist _ _)
      have hstart : ∀ x ∈ messages, start ≤ x.1 :=
        fun x hx => (mem_topicFrom.mp (mem_of_mem_take hx)).1.2.1
      have hrest := topicFrom_after hlast
      have hsplit : log.topicFrom topic start
          = messages ++ log.topicFrom topic (last.1 + 1) := by
        rw [hrest, take_append_drop]
      rw [foldl_max_sorted hsorted hstart hlast]
      split
      · next hshort =>
        -- the page holds all there is
        have hall : messages = log.topicFrom topic start := by
          rw [take_eq_self_iff]
          rw [length_take] at hshort
          omega
        rw [hall]
      · have hpos : 0 < messages.length := length_pos_of_mem (mem_of_getLast? hlast)
        have hlen := congrArg List.length hsplit
        rw [length_append] at hlen
        rw [ih _ _ (by omega)]
        conv_rhs => rw [hsplit]
        rw [foldl_append]

/-! ## The log of a topic -/

namespace Tenants

/-- The log that `shard_handle` gives. -/
def Config.handleDir (cfg : Config) (tenant : String) (s : State) (topic : String)
    (partition : UInt32) : Option LogDir :=
  if cfg.shardCount ≤ partition then none
  else (s.shards ⟨cfg.storageNamespace topic, partition⟩).or (cfg.dirFor tenant topic partition)

/-- A tenant finds the same logs with the same contents. -/
structure SameLogs (cfg : Config) (tenant : String) (s s' : State) : Prop where
  disk : s'.disk = s.disk
  handleDir : ∀ topic partition,
    cfg.handleDir tenant s' topic partition = cfg.handleDir tenant s topic partition

variable {cfg : Config} {tenant : String} {s s₁ s₂ : State}

theorem SameLogs.refl (cfg : Config) (tenant : String) (s : State) : SameLogs cfg tenant s s :=
  ⟨rfl, fun _ _ => rfl⟩

theorem SameLogs.trans (h : SameLogs cfg tenant s s₁) (h' : SameLogs cfg tenant s₁ s₂) :
    SameLogs cfg tenant s s₂ :=
  ⟨h'.disk.trans h.disk, fun topic p => (h'.handleDir topic p).trans (h.handleDir topic p)⟩

theorem sameLogs_open {partition : UInt32} {dir : LogDir}
    (hdir : cfg.dirFor tenant topic partition = some dir)
    (hnone : s.shards ⟨cfg.storageNamespace topic, partition⟩ = none) :
    SameLogs cfg tenant s { s with
      shards := Function.update s.shards ⟨cfg.storageNamespace topic, partition⟩ (some dir) } where
  disk := rfl
  handleDir := by
    intro topic' partition'
    unfold Config.handleDir
    split
    · rfl
    · dsimp only
      by_cases hkey : (⟨cfg.storageNamespace topic', partition'⟩ : ShardKey)
          = ⟨cfg.storageNamespace topic, partition⟩
      · rw [hkey, Function.update_self, hnone, Option.some_or, Option.none_or, ← hdir]
        obtain ⟨hname, rfl⟩ := ShardKey.mk.inj hkey
        -- the shared layout has one directory for all topics, the other one a key for each topic
        unfold Config.dirFor
        unfold Config.storageNamespace at hname
        split
        · rfl
        · next hlayout =>
          rw [if_neg hlayout, if_neg hlayout] at hname
          rw [hname]
      · rw [Function.update_of_ne hkey]

theorem shardHandle_spec (cfg : Config) (tenant topic : String) (partition : UInt32) (s : State) :
    ((cfg.shardHandle tenant topic partition s).1.toOption
        = cfg.handleDir tenant s topic partition) ∧
      SameLogs cfg tenant s (cfg.shardHandle tenant topic partition s).2 := by
  unfold Config.shardHandle
  by_cases hrange : cfg.shardCount ≤ partition
  · rw [if_pos hrange, Config.handleDir, if_pos hrange]
    exact ⟨rfl, .refl ..⟩
  · rw [if_neg hrange, Config.handleDir, if_neg hrange]
    dsimp only
    cases hshard : s.shards ⟨cfg.storageNamespace topic, partition⟩ with
    | some dir => exact ⟨rfl, .refl ..⟩
    | none =>
      cases hdir : cfg.dirFor tenant topic partition with
      | none => exact ⟨rfl, .refl ..⟩
      | some dir => exact ⟨rfl, sameLogs_open hdir hshard⟩

def LogDir.partition : LogDir → UInt32
  | .topic _ _ p => p
  | .physical p => p

end Tenants

/-! ## `backfill_pending` -/

/-- What `backfill_pending` reads besides the logs and the queue of jobs. -/
structure BackfillEnv where
  cfg : Config
  /-- The tenant of the node's configuration. -/
  tenant : String
  v5 : String → Uuid
  /-- `shard_leader`. -/
  leads : UInt32 → Bool
  memoryCritical : Bool
  /-- The queues of all tenants. -/
  queues : List Subscription
  index : DispatchIndex

namespace BackfillEnv

def listEndpoints (env : BackfillEnv) : List Subscription :=
  env.queues.filter fun queue => queue.tenantId = env.tenant

/-- The topics of the walk, as the hash set lists them. -/
def TopicOrder (env : BackfillEnv) (order : List String) : Prop :=
  order.Nodup ∧ ∀ topic, topic ∈ order ↔
    topic = directTopic ∨ ∃ queue ∈ env.listEndpoints, queue.topic = topic

def backfillPage : Nat := 500

section

variable (env : BackfillEnv)

/-- The body of the loop over the messages. -/
def visit (partition : UInt32) (hwm : Nat) (q : Intake) (x : Nat × Item) : Intake :=
  let msg := message partition x
  let lane : LaneId := ⟨env.tenant, cursorKey env.v5 msg, msg.partition⟩
  if !hasDestination msg then q
  else if msg.offset < env.index.cursors lane then q
  else if env.index.isDispatchComplete lane msg.offset then q
  else if hwm ≤ msg.offset then q
  else q.enqueue env.leads (.live msg)

/-- One partition. The handle is looked up again for every page and message; it stays open. -/
def backfillPartition (topic : String) (st : State × Intake) (partition : Nat) : State × Intake :=
  let p := UInt32.ofNat partition
  if !env.leads p then st
  else
    match env.cfg.shardHandle env.tenant topic p st.1 with
    | (.error _, s) => (s, st.2)
    | (.ok dir, s) =>
      (s, walkPages (s.disk dir) topic backfillPage (env.visit p (s.disk dir).committed)
        ((s.disk dir).records.length + 1) 0 st.2)

def backfillTopic (st : State × Intake) (topic : String) : State × Intake :=
  if isDlqTopic topic then st
  else (List.range env.cfg.partitions).foldl (env.backfillPartition topic) st

def backfillPending (order : List String) (st : State × Intake) : State × Intake :=
  if !st.2.workersEnabled then st
  else if env.memoryCritical then st
  else order.foldl env.backfillTopic st

end

/-! ## The jobs of a walk -/

variable {env : BackfillEnv} {s s' : State} {q : Intake} {topic : String}
  {partition : UInt32} {order : List String} {job : DeliveryJob}

/-- The message is committed, has a destination and is not complete in the lane of the node's
tenant. -/
def wanted (env : BackfillEnv) (partition : UInt32) (hwm : Nat) (x : Nat × Item) : Bool :=
  let msg := message partition x
  hasDestination msg && x.1 < hwm &&
    !env.index.isDispatchComplete ⟨env.tenant, cursorKey env.v5 msg, partition⟩ x.1

theorem visit_eq (hwm : Nat) (x : Nat × Item) :
    env.visit partition hwm q x
      = if env.wanted partition hwm x then q.enqueue env.leads (.live (message partition x))
        else q := by
  unfold visit wanted
  have hoffset : (message partition x).offset = x.1 := rfl
  have hpartition : (message partition x).partition = partition := rfl
  simp only [hoffset, hpartition]
  by_cases hdest : hasDestination (message partition x) = true
  · by_cases hbelow : x.1 < env.index.cursors
        ⟨env.tenant, cursorKey env.v5 (message partition x), partition⟩
    · -- what lies below the cursor is complete
      have hcomplete := DispatchIndex.isDispatchComplete_iff.mpr (.inl hbelow)
      simp [hbelow, hcomplete]
    · by_cases hcomplete : env.index.isDispatchComplete
          ⟨env.tenant, cursorKey env.v5 (message partition x), partition⟩ x.1 = true
      · simp [hcomplete]
      · by_cases hhwm : hwm ≤ x.1
        · simp [hhwm, Nat.not_lt.mpr hhwm]
        · simp [hdest, hbelow, hcomplete, hhwm, Nat.lt_of_not_le hhwm]
  · simp [hdest]

section

variable (env : BackfillEnv)

/-- The jobs of one partition of a topic. -/
def logJobs (log : ShardLog) (topic : String) (partition : UInt32) : List DeliveryJob :=
  ((log.topicFrom topic 0).filter (env.wanted partition log.committed)).map
    fun x => .live (message partition x)

def partitionJobs (s : State) (topic : String) (partition : UInt32) : List DeliveryJob :=
  if env.leads partition then
    match env.cfg.handleDir env.tenant s topic partition with
    | some dir => env.logJobs (s.disk dir) topic partition
    | none => []
  else []

def topicJobs (s : State) (topic : String) : List DeliveryJob :=
  if isDlqTopic topic then []
  else (List.range env.cfg.partitions).flatMap fun n => env.partitionJobs s topic (.ofNat n)

/-- The jobs that the walk tries to enqueue. -/
def pendingJobs (s : State) (order : List String) : List DeliveryJob :=
  order.flatMap (env.topicJobs s)

end

theorem foldl_visit (hwm : Nat) (xs : List (Nat × Item)) (q : Intake) :
    xs.foldl (env.visit partition hwm) q
      = q.enqueueAll env.leads ((xs.filter (env.wanted partition hwm)).map
          fun x => .live (message partition x)) := by
  induction xs generalizing q with
  | nil => rfl
  | cons x xs ih =>
    rw [foldl_cons, visit_eq, ih]
    split
    · next hwanted =>
      rw [filter_cons_of_pos hwanted]
      rfl
    · next hwanted => rw [filter_cons_of_neg hwanted]

section

variable (h : SameLogs env.cfg env.tenant s s')

include h

theorem partitionJobs_congr : env.partitionJobs s' = env.partitionJobs s := by
  funext topic partition
  unfold partitionJobs
  rw [h.handleDir, h.disk]

theorem topicJobs_congr : env.topicJobs s' = env.topicJobs s := by
  funext topic
  unfold topicJobs
  rw [partitionJobs_congr h]

end

theorem backfillPartition_eq (topic : String) (n : Nat) (s : State) (q : Intake) :
    ∃ s', env.backfillPartition topic (s, q) n
        = (s', q.enqueueAll env.leads (env.partitionJobs s topic (.ofNat n))) ∧
      SameLogs env.cfg env.tenant s s' := by
  unfold backfillPartition partitionJobs
  dsimp only
  cases hleads : env.leads (.ofNat n) with
  | false => exact ⟨s, rfl, .refl ..⟩
  | true =>
    obtain ⟨hdir, hsame⟩ := shardHandle_spec env.cfg env.tenant topic (.ofNat n) s
    rcases hrun : env.cfg.shardHandle env.tenant topic (.ofNat n) s with ⟨e | dir, s'⟩
    · rw [hrun] at hdir hsame
      rw [← hdir]
      exact ⟨s', rfl, hsame⟩
    · rw [hrun] at hdir hsame
      rw [← hdir]
      refine ⟨s', ?_, hsame⟩
      have hdisk : s'.disk = s.disk := hsame.disk
      show (s', walkPages _ _ _ _ _ _ _) = _
      rw [walkPages_eq (by decide) _ _ _ _ (Nat.lt_succ_of_le (topicFrom_length_le _)),
        foldl_visit, hdisk]
      rfl

/-- A walk in parts, each of which enqueues its jobs and leaves the logs alone. -/
theorem foldl_enqueues {α : Type} {walk : State × Intake → α → State × Intake}
    (jobs : State → α → List DeliveryJob)
    (hwalk : ∀ a s q, ∃ s', walk (s, q) a = (s', q.enqueueAll env.leads (jobs s a)) ∧
      SameLogs env.cfg env.tenant s s')
    (hjobs : ∀ s s', SameLogs env.cfg env.tenant s s' → jobs s' = jobs s)
    (xs : List α) (s : State) (q : Intake) :
    ∃ s', xs.foldl walk (s, q) = (s', q.enqueueAll env.leads (xs.flatMap (jobs s))) ∧
      SameLogs env.cfg env.tenant s s' := by
  induction xs generalizing s q with
  | nil => exact ⟨s, rfl, .refl ..⟩
  | cons x xs ih =>
    obtain ⟨s₁, hx, hsame⟩ := hwalk x s q
    obtain ⟨s₂, hxs, hsame'⟩ := ih s₁ (q.enqueueAll env.leads (jobs s x))
    refine ⟨s₂, ?_, hsame.trans hsame'⟩
    rw [foldl_cons, hx, hxs, hjobs s s₁ hsame, flatMap_cons]
    exact congrArg (s₂, ·) foldl_append.symm

theorem backfillTopic_eq (topic : String) (s : State) (q : Intake) :
    ∃ s', env.backfillTopic (s, q) topic
        = (s', q.enqueueAll env.leads (env.topicJobs s topic)) ∧
      SameLogs env.cfg env.tenant s s' := by
  unfold backfillTopic topicJobs
  split
  · exact ⟨s, rfl, .refl ..⟩
  · exact foldl_enqueues (fun s n => env.partitionJobs s topic (.ofNat n))
      (backfillPartition_eq topic) (fun _ _ h => by rw [partitionJobs_congr h]) _ s q

/-- **What one call does**: it enqueues the jobs of its walk. -/
theorem backfillPending_eq (hworkers : q.workersEnabled = true)
    (hmemory : env.memoryCritical = false) (order : List String) (s : State) :
    (env.backfillPending order (s, q)).2 = q.enqueueAll env.leads (env.pendingJobs s order) := by
  unfold backfillPending
  rw [hworkers, hmemory]
  obtain ⟨s', hrun, -⟩ := foldl_enqueues env.topicJobs backfillTopic_eq
    (fun _ _ h => topicJobs_congr h) order s q
  exact congrArg Prod.snd hrun

theorem backfillPending_closed (h : ¬(q.isOpen = true ∧ env.memoryCritical = false)) :
    (env.backfillPending order (s, q)).2 = q := by
  cases hworkers : q.workersEnabled with
  | false =>
    unfold backfillPending
    rw [hworkers]
    rfl
  | true =>
    cases hmemory : env.memoryCritical with
    | true =>
      unfold backfillPending
      rw [hworkers, hmemory]
      rfl
    | false =>
      rw [backfillPending_eq hworkers hmemory]
      exact Intake.enqueueAll_closed (Bool.eq_false_iff.mpr fun hopen => h ⟨hopen, hmemory⟩)

/-! ## Which records are enqueued -/

/-- A committed record that is not purged, has a destination, lies on a partition of the node that
it leads and is not complete in its own lane. -/
structure Pending (env : BackfillEnv) (s : State) (dir : LogDir) (x : Nat × Item) :
    Prop where
  inRange : dir.partition.toNat < env.cfg.partitions
  leads : env.leads dir.partition = true
  stored : x ∈ (s.disk dir).readable 0
  committed : x.1 < (s.disk dir).committed
  destination : hasDestination (message dir.partition x) = true
  notComplete : env.index.isDispatchComplete ⟨deliveryTenant env.tenant (message dir.partition x),
      cursorKey env.v5 (message dir.partition x), dir.partition⟩ x.1 = false

/-- A worker that takes jobs from the queue gets the record: its job is there, and the node opens
its log for the job. -/
def Enqueued (env : BackfillEnv) (s : State) (q : Intake) (dir : LogDir) (x : Nat × Item) : Prop :=
  env.cfg.handleDir env.tenant s x.2.1.topic dir.partition = some dir ∧
    .live (message dir.partition x) ∈ q.queue

theorem mem_partitionJobs :
    job ∈ env.partitionJobs s topic partition ↔
      env.leads partition = true ∧ ∃ dir x,
        env.cfg.handleDir env.tenant s topic partition = some dir ∧
        x ∈ (s.disk dir).readable 0 ∧ x.2.1.topic = topic ∧
        env.wanted partition (s.disk dir).committed x = true ∧
        job = .live (message partition x) := by
  unfold partitionJobs
  split
  · next hleads =>
    cases hdir : env.cfg.handleDir env.tenant s topic partition with
    | none => simp
    | some dir =>
      simp only [logJobs, mem_map, mem_filter, ShardLog.topicFrom, decide_eq_true_eq,
        hleads, true_and, Option.some_inj]
      constructor
      · rintro ⟨x, ⟨⟨hread, htopic⟩, hwanted⟩, rfl⟩
        exact ⟨dir, x, rfl, hread, htopic, hwanted, rfl⟩
      · rintro ⟨_, x, rfl, hread, htopic, hwanted, rfl⟩
        exact ⟨x, ⟨⟨hread, htopic⟩, hwanted⟩, rfl⟩
  · next hleads => simp [hleads]

theorem mem_pendingJobs :
    job ∈ env.pendingJobs s order ↔ ∃ topic ∈ order, isDlqTopic topic = false ∧
      ∃ n < env.cfg.partitions, job ∈ env.partitionJobs s topic (.ofNat n) := by
  unfold pendingJobs
  rw [mem_flatMap]
  refine exists_congr fun topic => and_congr_right fun _ => ?_
  unfold topicJobs
  cases hdlq : isDlqTopic topic with
  | true => simp
  | false => simp [mem_flatMap]

/-- A key stands for one job: the log that the node opens holds one record at an offset. -/
theorem pendingJobs_keys {job' : DeliveryJob} (hjob : job ∈ env.pendingJobs s order)
    (hjob' : job' ∈ env.pendingJobs s order) (hkey : job.key = job'.key) : job = job' := by
  obtain ⟨topic, -, -, n, -, hjob⟩ := mem_pendingJobs.mp hjob
  obtain ⟨topic', -, -, n', -, hjob'⟩ := mem_pendingJobs.mp hjob'
  obtain ⟨-, dir, x, hdir, hx, htopic, -, rfl⟩ := mem_partitionJobs.mp hjob
  obtain ⟨-, dir', x', hdir', hx', htopic', -, rfl⟩ := mem_partitionJobs.mp hjob'
  obtain ⟨hsame, hpartition, hoffset⟩ := JobKey.mk.inj hkey
  change x.2.1.topic = x'.2.1.topic at hsame
  change x.1 = x'.1 at hoffset
  change UInt32.ofNat n = UInt32.ofNat n' at hpartition
  rw [← htopic, hsame, htopic', hpartition, hdir', Option.some_inj] at hdir
  subst hdir
  have hget := (mem_readable.mp hx).1
  rw [hoffset, (mem_readable.mp hx').1, Option.some_inj] at hget
  obtain rfl : x = x' := Prod.ext hoffset hget.symm
  rw [hpartition]

/-- The job of a pending record is among those of the walk exactly if the walk comes by it. -/
theorem mem_pendingJobs_iff {dir : LogDir} {x : Nat × Item} (h : env.Pending s dir x)
    (hdir : env.cfg.handleDir env.tenant s x.2.1.topic dir.partition = some dir) :
    .live (message dir.partition x) ∈ env.pendingJobs s order ↔
      x.2.1.topic ∈ order ∧ isDlqTopic x.2.1.topic = false ∧
      env.index.isDispatchComplete ⟨env.tenant,
        cursorKey env.v5 (message dir.partition x), dir.partition⟩ x.1 = false := by
  rw [mem_pendingJobs]
  constructor
  · rintro ⟨topic, hlisted, hdlq, n, hn, hjob⟩
    obtain ⟨-, dir', x', hdir', hx', rfl, hwanted, heq⟩ := mem_partitionJobs.mp hjob
    obtain ⟨htopic, hpartition, hoffset, hid⟩ := DeliveryJob.mk.inj heq
    change x.2.1.topic = x'.2.1.topic at htopic
    change dir.partition = UInt32.ofNat n at hpartition
    change x.1 = x'.1 at hoffset
    rw [← htopic, ← hpartition, hdir, Option.some_inj] at hdir'
    subst hdir'
    have hget := (mem_readable.mp h.stored).1
    rw [hoffset, (mem_readable.mp hx').1, Option.some_inj] at hget
    obtain rfl : x = x' := Prod.ext hoffset hget.symm
    rw [← hpartition] at hwanted
    refine ⟨hlisted, hdlq, ?_⟩
    have := (Bool.and_eq_true_iff.mp hwanted).2
    rwa [Bool.not_eq_true'] at this
  · rintro ⟨hlisted, hdlq, hcomplete⟩
    refine ⟨_, hlisted, hdlq, dir.partition.toNat, h.inRange, ?_⟩
    rw [UInt32.ofNat_toNat]
    refine mem_partitionJobs.mpr ⟨h.leads, dir, x, hdir, h.stored, rfl, ?_, rfl⟩
    unfold wanted
    dsimp only
    rw [h.destination, decide_eq_true h.committed, hcomplete]
    rfl

/-- **What one call of `backfill_pending` enqueues.** With nothing in flight and room for the jobs,
a pending record is enqueued if and only if the workers run, memory is not critical, its topic is
`__direct` or that of a queue of the node's tenant and no DLQ topic, its log is the one that the
node opens for the topic, and it is not complete in the lane of the node's tenant. -/
theorem backfill_enqueues_iff {env : BackfillEnv} {s : State} {q : Intake}
    {order : List String} {dir : LogDir} {x : Nat × Item} (horder : env.TopicOrder order)
    (hqueue : q.queue = []) (hinFlight : q.inFlight = [])
    (hroom : (env.pendingJobs s order).length ≤ q.capacity) (hpending : env.Pending s dir x) :
    env.Enqueued s (env.backfillPending order (s, q)).2 dir x ↔
      q.isOpen = true ∧ env.memoryCritical = false ∧
      (x.2.1.topic = directTopic ∨ ∃ queue ∈ env.queues,
        queue.tenantId = env.tenant ∧ queue.topic = x.2.1.topic) ∧
      isDlqTopic x.2.1.topic = false ∧
      env.cfg.handleDir env.tenant s x.2.1.topic dir.partition = some dir ∧
      env.index.isDispatchComplete ⟨env.tenant,
        cursorKey env.v5 (message dir.partition x), dir.partition⟩ x.1 = false := by
  have hlisted : x.2.1.topic ∈ order ↔ x.2.1.topic = directTopic ∨ ∃ queue ∈ env.queues,
      queue.tenantId = env.tenant ∧ queue.topic = x.2.1.topic := by
    rw [horder.2]
    simp [listEndpoints, and_assoc]
  unfold Enqueued
  by_cases hopen : q.isOpen = true ∧ env.memoryCritical = false
  · obtain ⟨hopen, hmemory⟩ := hopen
    have hworkers : q.workersEnabled = true := by
      simp only [Intake.isOpen, Bool.and_eq_true] at hopen
      exact hopen.1.1
    rw [backfillPending_eq hworkers hmemory]
    have hready : q.Ready (env.pendingJobs s order).length :=
      ⟨hopen, by rwa [hqueue, length_nil, Nat.zero_add],
        fun key => by simp [hqueue, hinFlight]⟩
    have hleads : ∀ job ∈ env.pendingJobs s order, env.leads job.partition = true := by
      intro job hjob
      obtain ⟨topic, -, -, n, -, hjob⟩ := mem_pendingJobs.mp hjob
      obtain ⟨hleads, dir', x', -, -, -, -, rfl⟩ := mem_partitionJobs.mp hjob
      exact hleads
    have hkeys : ∀ a ∈ q.queue ++ env.pendingJobs s order,
        ∀ b ∈ q.queue ++ env.pendingJobs s order, a.key = b.key → a = b := by
      rw [hqueue]
      exact fun a ha b hb => pendingJobs_keys ha hb
    rw [hready.mem_enqueueAll hleads hkeys, hqueue, or_iff_right not_mem_nil]
    constructor
    · rintro ⟨hdir, hjob⟩
      obtain ⟨htopic, hdlq, hcomplete⟩ := (mem_pendingJobs_iff hpending hdir).mp hjob
      exact ⟨hopen, hmemory, hlisted.mp htopic, hdlq, hdir, hcomplete⟩
    · rintro ⟨-, -, htopic, hdlq, hdir, hcomplete⟩
      exact ⟨hdir, (mem_pendingJobs_iff hpending hdir).mpr ⟨hlisted.mpr htopic, hdlq, hcomplete⟩⟩
  · -- the queue stays empty
    have hsame : (env.backfillPending order (s, q)).2 = q := backfillPending_closed hopen
    rw [hsame, hqueue]
    exact ⟨fun h => absurd h.2 not_mem_nil, fun h => absurd ⟨h.1, h.2.1⟩ hopen⟩

/-- A message of the queue with id 7, published to `orders`. -/
def ordersItem : Item :=
  ({ LogRecordLegacy.upgrade ⟨1, "default", "orders", "k", none, 0⟩ with
      queueId := some 7, destinationUrl := some "http://hook" }, [])

/-- One shared shard that holds the message, committed. -/
def ordersState : State :=
  State.fresh.setLog (.physical 0) ⟨[ordersItem], [], 1⟩

/-- A node with one shard of the shared layout. -/
def ordersEnv (queues : List Subscription) : BackfillEnv where
  cfg := ⟨true, 1, 1⟩
  tenant := "default"
  v5 := fun _ => 0
  leads := fun _ => true
  memoryCritical := false
  queues := queues
  index := .empty

/-- Running workers with room for ten jobs. -/
def idleIntake : Intake := ⟨true, false, false, 10, [], []⟩

def ordersSubscription : Subscription :=
  ⟨7, "default", "orders", "http://hook", "secret", none, none, none⟩

theorem orders_pending (queues : List Subscription) :
    (ordersEnv queues).Pending ordersState (.physical 0) (0, ordersItem) where
  inRange := Nat.zero_lt_one
  leads := rfl
  stored := by decide +kernel
  committed := by decide
  destination := by decide
  notComplete := rfl

theorem orders_topicOrder :
    (ordersEnv [ordersSubscription]).TopicOrder [directTopic, "orders"] := by
  refine ⟨by decide, fun topic => ?_⟩
  simp [listEndpoints, ordersEnv, ordersSubscription, eq_comm]

/-- The message of a queue that is there. -/
theorem ordersItem_enqueued :
    (ordersEnv [ordersSubscription]).Enqueued ordersState
      ((ordersEnv [ordersSubscription]).backfillPending [directTopic, "orders"]
        (ordersState, idleIntake)).2 (.physical 0) (0, ordersItem) :=
  (backfill_enqueues_iff orders_topicOrder rfl rfl (by decide +kernel)
    (orders_pending [ordersSubscription])).mpr
    ⟨rfl, rfl, .inr ⟨ordersSubscription, mem_singleton.mpr rfl, rfl, rfl⟩, by decide +kernel,
      rfl, rfl⟩

/-- **The message of a deleted queue is left behind.** The node leads the partition, the queue of
jobs is empty, and the committed message, which is not complete, is not enqueued. -/
theorem deleted_queue_left_behind :
    (ordersEnv []).TopicOrder [directTopic] ∧
      (ordersEnv []).Pending ordersState (.physical 0) (0, ordersItem) ∧
      ((ordersEnv []).backfillPending [directTopic] (ordersState, idleIntake)).2.queue = [] := by
  refine ⟨⟨by decide, fun topic => ?_⟩, orders_pending [], by decide +kernel⟩
  simp [listEndpoints, ordersEnv]

end BackfillEnv

end BetterMQ
