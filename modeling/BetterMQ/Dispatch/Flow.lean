import BetterMQ.Dispatch.Engine

/-!
# Flow lanes step by step (`broker-dispatch/src/flow_control.rs`)

The engine's machine lets a lane start a delivery in one step. Here a drainer makes one access at a
time (`spawn_lane_drainer`), between the calls on the controller, the ends of deliveries and the
other drainers. Work, limits and pauses are those of the source; clocks and the memory guard stand
in the labels.

* **`caps_hold`** — a delivery starts within the parallelism that its drainer read, and the global
  maximum holds if drainers pass its check one at a time; `two_drainers_exceed_maximum`: else not;
* **`no_lost_wakeup`** — a drainer that finds the maximum reached while its lane has a delivery of
  its own is woken in time; `freed_slot_wakes_nobody`: another lane's delivery wakes nobody;
* **`limits_effective_iff`** — what a lane enforces is what was submitted or ensured last, so it is
  as pinned only if the pins change nothing; `pin_changes_nothing`.
-/

namespace BetterMQ

open List Option

/-! ## Lanes -/

/-- `ResolvedFlow` without its key. `resolve` takes the maximum with 1. -/
structure Limits where
  parallelism : UInt32
  rate : UInt32
  periodSecs : UInt64
  parallelism_pos : 1 ≤ parallelism := by decide
  period_pos : 1 ≤ periodSecs := by decide
  deriving DecidableEq

/-- What a lane that enforces the limits reports, and the rate and the period of its window. -/
@[grind =] def Limits.terms (limits : Limits) : Limits × UInt32 × UInt64 :=
  (limits, limits.rate, limits.periodSecs)

structure PinnedLimits where
  parallelism : Option UInt32
  rate : Option UInt32
  periodSecs : Option UInt64
  deriving DecidableEq

structure RateWindow where
  max : UInt32
  periodSecs : UInt64
  periodStartMs : Int64
  count : UInt32
  deriving DecidableEq

/-- `try_acquire`, with the saturating difference of two `i64`. -/
def RateWindow.tryAcquire (w : RateWindow) (nowMs : Int64) : Bool × RateWindow :=
  if w.max = 0 then (true, w)
  else
    let elapsed := Max.max (-2 ^ 63) (min (2 ^ 63 - 1) (nowMs.toInt - w.periodStartMs.toInt))
    let w :=
      if (w.periodSecs * 1000).toInt64.toInt ≤ elapsed then
        { w with periodStartMs := nowMs, count := 0 }
      else w
    if w.count < w.max then (true, { w with count := w.count + 1 }) else (false, w)

/-- Where a drainer stands: the access that it makes next. -/
inductive DrainPhase where
  | top
  | checkPaused
  | readLimits
  | readActive (parallelism : UInt32)
  | checkGlobal (parallelism : UInt32)
  | acquireRate (parallelism : UInt32)
  | pop (parallelism : UInt32)
  | popped (parallelism : UInt32) (work : OrderedWork)
  /-- The lane counts the delivery, and it starts next. -/
  | counted (parallelism : UInt32) (work : OrderedWork)
  /-- In `notified`. -/
  | parked
  | sleeping
  deriving DecidableEq

/-- `FlowLane`. -/
structure Lane where
  limits : Limits
  waitlist : List OrderedWork
  active : Nat
  rate : RateWindow
  paused : Bool
  pinned : PinnedLimits
  /-- A call of `pin` waits for the mutex that it holds itself. -/
  pinHeld : Bool
  /-- The permit of `notify`. -/
  notified : Bool
  drainer : DrainPhase
  deriving DecidableEq

namespace Lane

/-- What a lane reports, and the rate and the period that its drainer goes by. -/
@[grind =] def terms (lane : Lane) : Limits × UInt32 × UInt64 :=
  (lane.limits, lane.rate.max, lane.rate.periodSecs)

def new (limits : Limits) (nowMs : Int64) : Lane where
  limits := limits
  waitlist := []
  active := 0
  rate := ⟨limits.rate, limits.periodSecs, nowMs, 0⟩
  paused := false
  pinned := ⟨none, none, none⟩
  pinHeld := false
  notified := false
  drainer := .top

/-- `get_or_create_lane` for a lane that exists. -/
def setLimits (lane : Lane) (limits : Limits) : Lane :=
  { lane with
    limits := limits
    rate := { lane.rate with max := limits.rate, periodSecs := max limits.periodSecs 1 } }

/-- `pin` writes the pins, and then `apply_pins` waits for the mutex of the pins. -/
def pin (lane : Lane) (pins : PinnedLimits) : Lane :=
  if lane.pinHeld then lane
  else
    { lane with
      pinned :=
        ⟨pins.parallelism <|> lane.pinned.parallelism, pins.rate <|> lane.pinned.rate,
          pins.periodSecs <|> lane.pinned.periodSecs⟩
      pinHeld := true }

def unpin (lane : Lane) (parallelism rate : Bool) : Lane :=
  if lane.pinHeld then lane
  else
    { lane with
      pinned :=
        { lane.pinned with
          parallelism := if parallelism then none else lane.pinned.parallelism
          rate := if rate then none else lane.pinned.rate } }

/-- The next access of the drainer, up to the start of a delivery; `full` is what it finds when it
compares `global_active` with the maximum. -/
def advance (lane : Lane) (full critical : Bool) (nowMs : Int64) : Option Lane :=
  match lane.drainer with
  | .top => some { lane with drainer := if critical then .sleeping else .checkPaused }
  | .checkPaused => some { lane with drainer := if lane.paused then .parked else .readLimits }
  | .readLimits => some { lane with drainer := .readActive lane.limits.parallelism }
  | .readActive p =>
    some { lane with drainer := if p.toNat ≤ lane.active then .parked else .checkGlobal p }
  | .checkGlobal p =>
    some { lane with drainer := if full then .parked else .acquireRate p }
  | .acquireRate p =>
    some { lane with
      rate := (lane.rate.tryAcquire nowMs).2
      drainer := if (lane.rate.tryAcquire nowMs).1 then .pop p else .sleeping }
  | .pop p =>
    match OrderedWork.pop (p = 1) lane.waitlist with
    | none => some { lane with drainer := .parked }
    | some w => some { lane with waitlist := lane.waitlist.erase w, drainer := .popped p w }
  | .popped p w => some { lane with active := lane.active + 1, drainer := .counted p w }
  | .counted _ _ => none
  | .parked => if lane.notified then some { lane with notified := false, drainer := .top } else none
  | .sleeping => some { lane with notified := true, drainer := .top }

end Lane

/-! ## The controller -/

inductive DeliveryPhase where
  | running
  /-- The lane does not count it any more. -/
  | lowered
  | ended
  deriving DecidableEq

structure FlowController where
  lanes : FlowKey → Option Lane
  drainers : List FlowKey
  globalActive : Nat
  /-- `ENQUEUE_SEQ`. -/
  seq : Nat
  deliveries : List (FlowKey × DeliveryPhase)
  /-- The notifications that calls under way have still to make. -/
  notices : List FlowKey

structure FlowEnv where
  globalMax : Option UInt32
  waitlistCap : Nat

/-- As many deliveries are active as the maximum allows. -/
def FlowEnv.full (env : FlowEnv) (globalActive : Nat) : Bool :=
  env.globalMax.any fun g => g.toNat ≤ globalActive

inductive FlowEvent where
  /-- `ensure_lane`, and the first half of `submit`. -/
  | ensureLane (key : FlowKey) (limits : Limits) (nowMs : Int64)
  /-- The second half of `submit`. -/
  | push (key : FlowKey) (msg : StoredMessage)
  | pause (key : FlowKey)
  | resume (key : FlowKey)
  | pin (key : FlowKey) (pins : PinnedLimits)
  | unpin (key : FlowKey) (parallelism rate : Bool)
  | resetRate (key : FlowKey) (nowMs : Int64)
  /-- A call makes its notification. -/
  | notify (n : Nat)
  | drain (key : FlowKey) (critical : Bool) (nowMs : Int64)
  /-- `deliver_message` returns, or the task of the delivery goes on. -/
  | delivery (i : Nat)
  deriving DecidableEq

/-- The limits that a call submits or ensures for a lane. -/
@[grind =] def FlowEvent.limitsFor (key : FlowKey) : FlowEvent → Option Limits
  | .ensureLane k limits _ => if k = key then some limits else none
  | _ => none

/-- The lane whose drainer makes an access. -/
def FlowEvent.drains : FlowEvent → Option FlowKey
  | .drain key _ _ => some key
  | _ => none

namespace FlowController

def new : FlowController := ⟨fun _ => none, [], 0, 0, [], []⟩

/-- A call changes a lane and has `notices` to make. -/
def onLane (s : FlowController) (key : FlowKey) (f : Lane → Lane) (notices : List FlowKey) :
    Option FlowController :=
  (s.lanes key).map fun lane =>
    { s with lanes := Function.update s.lanes key (some (f lane)), notices := notices ++ s.notices }

/-- A call that returns `false` where there is no lane. -/
def tryLane (s : FlowController) (key : FlowKey) (f : Lane → Lane) (notices : List FlowKey) :
    Option FlowController :=
  some ((s.onLane key f notices).getD s)

def step (env : FlowEnv) (s : FlowController) : FlowEvent → Option FlowController
  | .ensureLane key limits nowMs =>
    match s.lanes key with
    | some _ => s.onLane key (·.setLimits limits) [key]
    | none =>
      some { s with
        lanes := Function.update s.lanes key (some (.new limits nowMs))
        drainers := s.drainers ++ [key] }
  | .push key msg =>
    (s.lanes key).bind fun lane =>
      if max env.waitlistCap 1 ≤ lane.waitlist.length then some s
      else
        { s with seq := s.seq + 1 }.onLane key
          (fun lane => { lane with waitlist := lane.waitlist ++ [OrderedWork.mk msg s.seq] }) [key]
  | .pause key => s.tryLane key ({ · with paused := true }) []
  | .resume key => s.tryLane key ({ · with paused := false }) [key]
  | .pin key pins => s.tryLane key (·.pin pins) []
  | .unpin key parallelism rate =>
    s.tryLane key (·.unpin parallelism rate) (if (s.lanes key).any (·.pinHeld) then [] else [key])
  | .resetRate key nowMs =>
    s.tryLane key (fun lane =>
      { lane with rate := { lane.rate with periodStartMs := nowMs, count := 0 } }) [key]
  | .notify n =>
    (s.notices[n]?).bind fun key =>
      { s with notices := s.notices.eraseIdx n }.onLane key ({ · with notified := true }) []
  | .drain key critical nowMs =>
    (s.lanes key).bind fun lane =>
      match lane.drainer with
      | .counted _ _ =>
        some { s with
          lanes := Function.update s.lanes key (some { lane with drainer := .top })
          globalActive := s.globalActive + 1
          deliveries := s.deliveries ++ [(key, .running)] }
      | _ =>
        (lane.advance (env.full s.globalActive) critical nowMs).map fun lane =>
          { s with lanes := Function.update s.lanes key (some lane) }
  | .delivery i =>
    (s.deliveries[i]?).bind fun d =>
      match d.2 with
      | .running =>
        { s with deliveries := s.deliveries.set i (d.1, .lowered) }.onLane d.1
          (fun lane => { lane with active := lane.active - 1 }) []
      | .lowered =>
        some { s with
          globalActive := s.globalActive - 1
          deliveries := s.deliveries.set i (d.1, .ended)
          notices := d.1 :: s.notices }
      | .ended => none

end FlowController

/-! ## What a step can be -/

variable {env : FlowEnv} {s s' : FlowController} {a : FlowEvent} {key : FlowKey} {lane lane' : Lane}
  {nowMs : Int64} {n : Nat}

namespace FlowController

/-- A call or a notification changes a lane, but neither its count nor its drainer; and what a
parked drainer waits for comes with a notification. -/
structure Call (a : FlowEvent) (before after : List FlowKey) (key : FlowKey) (lane lane' : Lane) :
    Prop where
  active : lane'.active = lane.active
  drainer : lane'.drainer = lane.drainer
  notices : ∀ k ∈ before, k ∈ after ∨ k = key ∧ lane'.notified = true
  notified : lane.notified = true → lane'.notified = true
  wakes : key ∈ after ∨
    lane'.waitlist = lane.waitlist ∧ lane'.limits = lane.limits ∧
      (lane.paused = true → lane'.paused = true)
  terms : lane'.terms = ((a.limitsFor key).map Limits.terms).getD lane.terms
  only : ∀ k ≠ key, a.limitsFor k = none

inductive Move (env : FlowEnv) (s : FlowController) : FlowEvent → FlowController → Prop where
  | idle {a : FlowEvent} (h : ∀ key, a.limitsFor key = none) : Move env s a s
  | create {key limits nowMs} (h : s.lanes key = none) :
      Move env s (.ensureLane key limits nowMs) { s with
        lanes := Function.update s.lanes key (some (.new limits nowMs))
        drainers := s.drainers ++ [key] }
  | call {a key lane lane' seq notices} (h : s.lanes key = some lane)
      (hcall : Call a s.notices notices key lane lane') :
      Move env s a { s with
        lanes := Function.update s.lanes key (some lane'), seq := seq, notices := notices }
  | advance {key lane lane' critical nowMs} (h : s.lanes key = some lane)
      (hadvance : lane.advance (env.full s.globalActive) critical nowMs = some lane') :
      Move env s (.drain key critical nowMs)
        { s with lanes := Function.update s.lanes key (some lane') }
  | start {key lane critical nowMs p w} (h : s.lanes key = some lane)
      (hdrainer : lane.drainer = .counted p w) :
      Move env s (.drain key critical nowMs) { s with
        lanes := Function.update s.lanes key (some { lane with drainer := .top })
        globalActive := s.globalActive + 1
        deliveries := s.deliveries ++ [(key, .running)] }
  | lower {i key lane} (hi : s.deliveries[i]? = some (key, .running))
      (h : s.lanes key = some lane) :
      Move env s (.delivery i) { s with
        lanes := Function.update s.lanes key (some { lane with active := lane.active - 1 })
        deliveries := s.deliveries.set i (key, .lowered) }
  | free {i key} (hi : s.deliveries[i]? = some (key, .lowered)) :
      Move env s (.delivery i) { s with
        globalActive := s.globalActive - 1
        deliveries := s.deliveries.set i (key, .ended)
        notices := key :: s.notices }

theorem move_of_onLane {t : FlowController} {f : Lane → Lane} {ns : List FlowKey}
    (h : t.onLane key f ns = some s') (ht : t = { s with seq := t.seq, notices := t.notices })
    (hcall : ∀ lane, Call a s.notices (ns ++ t.notices) key lane (f lane)) : Move env s a s' := by
  obtain ⟨lane, hlane, rfl⟩ := map_eq_some_iff.mp h
  rw [ht] at hlane ⊢
  exact .call hlane (hcall lane)

theorem move_of_tryLane {f : Lane → Lane} {ns : List FlowKey} (h : s.tryLane key f ns = some s')
    (hcall : ∀ lane, Call a s.notices (ns ++ s.notices) key lane (f lane))
    (hidle : ∀ k, a.limitsFor k = none) : Move env s a s' := by
  cases hlane : s.onLane key f ns with
  | none =>
    rw [tryLane, hlane] at h
    cases h
    exact .idle hidle
  | some t =>
    rw [tryLane, hlane] at h
    exact move_of_onLane (hlane.trans h) rfl hcall

theorem move_of_step (h : s.step env a = some s') : Move env s a s' := by
  cases a with
  | ensureLane key limits nowMs =>
    rw [step] at h
    split at h
    · have hmax : max limits.periodSecs 1 = limits.periodSecs := by
        have := limits.period_pos
        change (if limits.periodSecs ≤ 1 then 1 else limits.periodSecs) = _
        grind
      exact move_of_onLane h rfl fun lane => by constructor <;> grind [Lane.setLimits]
    · next hnone =>
      cases h
      exact .create hnone
  | push key msg =>
    obtain ⟨lane, hlane, h⟩ := bind_eq_some_iff.mp h
    split at h
    · cases h
      exact .idle fun _ => rfl
    · exact move_of_onLane h rfl fun lane => by constructor <;> grind
  | pause | resume | resetRate | pin | unpin =>
    refine move_of_tryLane h (fun lane => ?_) fun _ => rfl
    constructor <;> grind [Lane.pin, Lane.unpin]
  | notify n =>
    obtain ⟨key, hkey, h⟩ := bind_eq_some_iff.mp h
    refine move_of_onLane h rfl fun lane =>
      ⟨rfl, rfl, fun k hk => ?_, fun _ => rfl, .inr ?_, rfl, fun _ _ => rfl⟩
    · obtain ⟨j, hj⟩ := mem_iff_getElem?.mp hk
      have hrest : j ≠ n → k ∈ s.notices.eraseIdx n := fun hne =>
        mem_eraseIdx_iff_getElem?.mpr ⟨j, hne, hj⟩
      grind
    · simp
  | drain key critical nowMs =>
    obtain ⟨lane, hlane, h⟩ := bind_eq_some_iff.mp h
    split at h
    · next hdrainer =>
      cases h
      exact .start hlane hdrainer
    · obtain ⟨lane', hadvance, rfl⟩ := map_eq_some_iff.mp h
      exact .advance hlane hadvance
  | delivery i =>
    obtain ⟨⟨key, ph⟩, hi, h⟩ := bind_eq_some_iff.mp h
    cases ph with
    | running =>
      obtain ⟨lane, hlane, rfl⟩ := map_eq_some_iff.mp h
      exact .lower hi hlane
    | lowered =>
      cases h
      exact .free hi
    | ended => cases h

end FlowController

/-! ## Counting deliveries -/

namespace DrainPhase

/-- The parallelism read for a start that the lane does not count yet. -/
@[grind =] def limit : DrainPhase → Option UInt32
  | .checkGlobal p | .acquireRate p | .pop p | .popped p _ => some p
  | _ => none

/-- The parallelism read for a start that the lane counts. -/
@[grind =] def starting : DrainPhase → Option UInt32
  | .counted p _ => some p
  | _ => none

@[grind =] def checking : DrainPhase → Bool
  | .checkGlobal _ => true
  | _ => false

/-- Between the check of the global maximum and the start. -/
@[grind =] def admitted : DrainPhase → Bool
  | .acquireRate _ | .pop _ | .popped _ _ | .counted _ _ => true
  | _ => false

end DrainPhase

namespace FlowController

/-- The running deliveries of a lane. -/
def running (s : FlowController) (key : FlowKey) : Nat :=
  s.deliveries.countP fun d => d = (key, .running)

/-- The count of a lane is right, and leaves room for the start that its drainer prepares. -/
structure LaneOk (running : Nat) (lane : Lane) : Prop where
  active : lane.active = running + lane.drainer.starting.toList.length
  limit : ∀ p ∈ lane.drainer.limit, lane.active < p.toNat
  starting : ∀ p ∈ lane.drainer.starting, lane.active ≤ p.toNat

structure Counted (s : FlowController) : Prop where
  lanes : ∀ key lane, s.lanes key = some lane → LaneOk (s.running key) lane
  homes : ∀ d ∈ s.deliveries, (s.lanes d.1).isSome
  globalActive : s.globalActive = s.deliveries.countP fun d => d.2 ≠ .ended

theorem new_counted : Counted new := ⟨by simp [new], by simp [new], rfl⟩

theorem LaneOk.advance {full critical : Bool} (h : LaneOk n lane)
    (hadv : lane.advance full critical nowMs = some lane') : LaneOk n lane' := by
  obtain ⟨ha, hl, hs⟩ := h
  rw [Lane.advance] at hadv
  constructor <;> grind

theorem Counted.step (h : Counted s) (hstep : s.step env a = some s') : Counted s' := by
  obtain ⟨hl, hh, hg⟩ := h
  cases move_of_step hstep with
  | idle => exact ⟨hl, hh, hg⟩
  | @create key limits nowMs hnone =>
    -- nothing runs in a lane that does not exist
    have hzero : s.running key = 0 := countP_eq_zero.mpr (by grind)
    have hnew : LaneOk (s.running key) (.new limits nowMs) := by
      constructor <;> grind [Lane.new]
    refine ⟨?_, ?_, hg⟩ <;> grind [running]
  | call hlane hcall =>
    have := hcall.active
    have := hcall.drainer
    refine ⟨?_, ?_, hg⟩ <;> grind [running, LaneOk]
  | advance hlane hadvance =>
    have := (hl _ _ hlane).advance hadvance
    refine ⟨?_, ?_, hg⟩ <;> grind [running]
  | @start key lane critical nowMs p w hlane hdrainer =>
    have hok := hl _ _ hlane
    have hrun k : (s.deliveries ++ [(key, DeliveryPhase.running)]).countP
        (fun d => d = (k, .running)) = s.running k + if k = key then 1 else 0 := by
      simp [running]
      grind
    refine ⟨?_, ?_, by simp [hg]⟩
    · grind [running, LaneOk]
    · grind
  | @lower i key lane hi hlane =>
    have hok := hl _ _ hlane
    have hrun k := countP_set_add hi (key, .lowered) fun d => d = (k, .running)
    have hglobal := countP_set_add hi (key, .lowered) fun d => d.2 ≠ .ended
    refine ⟨?_, ?_, ?_⟩
    · grind [running, LaneOk]
    · grind
    · grind
  | @free i key hi =>
    have hrun k := countP_set_add hi (key, .ended) fun d => d = (k, .running)
    have hglobal := countP_set_add hi (key, .ended) fun d => d.2 ≠ .ended
    refine ⟨?_, ?_, ?_⟩
    · grind [running]
    · grind
    · grind

/-! ## The caps -/

/-- A delivery starts within the parallelism read for it. -/
def LaneCapped (s : FlowController) : Prop :=
  ∀ key, ∀ lane ∈ s.lanes key, ∀ p ∈ lane.drainer.starting, s.running key + 1 ≤ p.toNat

/-- The running deliveries over all lanes keep to the global maximum. -/
def GlobalCapped (env : FlowEnv) (s : FlowController) : Prop :=
  ∀ g ∈ env.globalMax, s.deliveries.countP (fun d => d.2 = .running) ≤ g.toNat

/-- A drainer checks the global maximum only while no drainer is between its check and its start. -/
def OneAdmitted (s : FlowController) (a : FlowEvent) : Prop :=
  ∀ key ∈ a.drains, (∃ lane ∈ s.lanes key, lane.drainer.checking = true) →
    ∀ k ∈ s.drainers, ∀ lane ∈ s.lanes k, lane.drainer.admitted = false

/-- The drainer that was admitted has a slot. -/
structure Roomy (env : FlowEnv) (s : FlowController) : Prop where
  counted : Counted s
  drainers : ∀ key, (s.lanes key).isSome → key ∈ s.drainers
  room : ∀ g ∈ env.globalMax, s.globalActive ≤ g.toNat ∧
    ∀ key lane, s.lanes key = some lane → lane.drainer.admitted = true → s.globalActive < g.toNat
  alone : ∀ key lane key' lane', s.lanes key = some lane → s.lanes key' = some lane' →
    lane.drainer.admitted = true → lane'.drainer.admitted = true → key = key'

theorem new_roomy : Roomy env new := by
  refine ⟨new_counted, ?_, ?_, ?_⟩ <;> simp [new]

theorem full_eq_false : env.full n = false ↔ ∀ g ∈ env.globalMax, n < g.toNat := by
  cases h : env.globalMax <;> simp [FlowEnv.full, h]

theorem admitted_of_advance {full critical : Bool}
    (h : lane.advance full critical nowMs = some lane')
    (hadmitted : lane'.drainer.admitted = true) :
    lane.drainer.admitted = true ∨ lane.drainer.checking = true ∧ full = false := by
  rw [Lane.advance] at h
  grind

theorem Roomy.step (h : Roomy env s) (hgood : OneAdmitted s a)
    (hstep : s.step env a = some s') : Roomy env s' := by
  have hcounted := h.counted.step hstep
  obtain ⟨-, hd, hr, ha⟩ := h
  cases move_of_step hstep with
  | idle => exact ⟨hcounted, hd, hr, ha⟩
  | create hnone =>
    refine ⟨hcounted, ?_, ?_, ?_⟩ <;>
      grind [Lane.new]
  | call hlane hcall =>
    have := hcall.drainer
    refine ⟨hcounted, ?_, ?_, ?_⟩ <;> grind
  | @advance key lane _ _ _ hlane hadvance =>
    have hclear : lane.drainer.checking = true → ∀ k l, s.lanes k = some l →
        l.drainer.admitted = false := fun hcheck k l hl =>
      hgood _ rfl ⟨_, hlane, hcheck⟩ k (hd k (by rw [hl]; rfl)) l hl
    have hold := admitted_of_advance hadvance
    have hroom : env.full s.globalActive = false → ∀ g ∈ env.globalMax, s.globalActive < g.toNat :=
      full_eq_false.mp
    refine ⟨hcounted, ?_, ?_, ?_⟩
    · grind
    · intro g hg
      grind
    · grind
  | start hlane hdrainer =>
    refine ⟨hcounted, ?_, ?_, ?_⟩ <;>
      grind
  | lower | free => refine ⟨hcounted, ?_, ?_, ?_⟩ <;> grind

instance : Decidable (OneAdmitted s a) := inferInstanceAs (Decidable (∀ key ∈ a.drains, _ → _))

instance : Decidable (GlobalCapped env s) := Option.decidableForallMem env.globalMax

/-- **Parallelism caps**: a delivery starts within the parallelism read for it; and if drainers pass
the check of the global maximum one at a time, the maximum holds. -/
theorem caps_hold {as : List FlowEvent} :
    (AnyRun (step env) new as s → LaneCapped s) ∧
    (Run (step env) OneAdmitted new as s → GlobalCapped env s) := by
  refine ⟨fun hrun key lane hlane p hp => ?_, fun hrun g hg => ?_⟩
  · have hok := (hrun.invariant Counted (fun _ _ _ h _ hstep => h.step hstep) new_counted).lanes
      key lane hlane
    have := hok.active
    have := hok.starting p hp
    grind [mem_def]
  · have h := hrun.invariant (Roomy env) (fun _ _ _ h hgood hstep => h.step hgood hstep) new_roomy
    calc s.deliveries.countP (fun d => d.2 = .running)
        ≤ s.deliveries.countP fun d => d.2 ≠ .ended := countP_mono_left (by grind)
      _ = s.globalActive := h.counted.globalActive.symm
      _ ≤ g.toNat := (h.room g hg).1

/-- A lane with a message. -/
def waiting (key : FlowKey) : List FlowEvent :=
  [.ensureLane key ⟨1, 0, 1, by decide, by decide⟩ 0, .push key (hookMessage 1), .notify 0]

/-- `n` accesses of a drainer. -/
def drains (key : FlowKey) (n : Nat) : List FlowEvent := List.replicate n (.drain key false 0)

/-- One lane and a maximum of one: the drainer counts its message. -/
theorem caps_hold_one_lane : ∃ s,
    Run (step ⟨some 1, 8192⟩) OneAdmitted new (waiting ⟨1, "a"⟩ ++ drains ⟨1, "a"⟩ 8) s ∧
      (s.lanes ⟨1, "a"⟩).any (·.drainer.starting = some 1) ∧ LaneCapped s ∧
      GlobalCapped ⟨some 1, 8192⟩ s := by
  exact exists_and₂_of (by decide +kernel) fun s hs _ =>
    ⟨caps_hold.1 (hs.mono fun _ _ _ => trivial), caps_hold.2 hs⟩

/-- **Two drainers that pass the check together exceed the maximum.** -/
theorem two_drainers_exceed_maximum : ∃ s,
    AnyRun (step ⟨some 1, 8192⟩) new
      (waiting ⟨1, "a"⟩ ++ waiting ⟨2, "b"⟩ ++ drains ⟨1, "a"⟩ 5 ++ drains ⟨2, "b"⟩ 5 ++
        drains ⟨1, "a"⟩ 4 ++ drains ⟨2, "b"⟩ 4) s ∧ ¬GlobalCapped ⟨some 1, 8192⟩ s := by
  decide +kernel

/-! ## Wake-ups -/

/-- The deliveries of a lane that have not notified it. -/
def underWay (s : FlowController) (key : FlowKey) : Nat :=
  s.deliveries.countP fun d => d.1 = key ∧ d.2 ≠ .ended

/-- Something will wake the drainer of the lane. -/
def Pending (s : FlowController) (key : FlowKey) (lane : Lane) : Prop :=
  lane.notified = true ∨ key ∈ s.notices ∨ 0 < s.underWay key

/-- The lane has work and everything that it takes to start it, and its drainer sleeps on. -/
def Lost (env : FlowEnv) (s : FlowController) (nowMs : Int64) (key : FlowKey) (lane : Lane) :
    Prop :=
  lane.waitlist ≠ [] ∧ lane.paused = false ∧ lane.active < lane.limits.parallelism.toNat ∧
    env.full s.globalActive = false ∧ (lane.rate.tryAcquire nowMs).1 = true ∧
    lane.drainer = .parked ∧ ¬s.Pending key lane

/-- A drainer that finds the global maximum reached will be woken by its own lane. -/
def WokenByOwn (env : FlowEnv) (s : FlowController) (a : FlowEvent) : Prop :=
  ∀ key ∈ a.drains, ∀ lane ∈ s.lanes key, lane.drainer.checking = true →
    env.full s.globalActive = true → s.Pending key lane

/-- What a drainer waits for has not come, or will wake it. -/
structure Awake (s : FlowController) (key : FlowKey) (lane : Lane) : Prop where
  parked : lane.drainer = .parked → s.Pending key lane ∨ lane.paused = true ∨
    lane.waitlist = [] ∨ lane.limits.parallelism.toNat ≤ lane.active
  reading : ∀ p, lane.drainer = .readActive p → s.Pending key lane ∨ p = lane.limits.parallelism

theorem pop_eq_none {fifo : Bool} {waitlist : List OrderedWork}
    (h : OrderedWork.pop fifo waitlist = none) : waitlist = [] := by
  unfold OrderedWork.pop at h
  split at h <;> exact argmin_eq_none.mp h

theorem Awake.advance {full critical : Bool} (h : s.Awake key lane)
    (hgood : lane.drainer.checking = true → full = true → s.Pending key lane)
    (hadvance : lane.advance full critical nowMs = some lane') : s.Awake key lane' := by
  obtain ⟨hp, hr⟩ := h
  rw [Lane.advance] at hadvance
  constructor <;> grind [Pending, pop_eq_none]

theorem awake_step (h : ∀ key lane, s.lanes key = some lane → s.Awake key lane)
    (hgood : WokenByOwn env s a) (hstep : s.step env a = some s') :
    ∀ key lane, s'.lanes key = some lane → s'.Awake key lane := by
  cases move_of_step hstep with
  | idle => exact h
  | create hnone =>
    intro key lane hlane
    constructor <;> grind [Awake, Pending, underWay, Function.update_apply, Lane.new]
  | call hlane hcall =>
    obtain ⟨ha, hd, hn, hnotified, hw, -⟩ := hcall
    intro k l hl
    have := h k l
    have := h _ _ hlane
    constructor <;> grind [Awake, Pending, underWay, Function.update_apply]
  | advance hlane hadvance =>
    have := (h _ _ hlane).advance (hgood _ rfl _ hlane) hadvance
    grind [Awake, Pending, underWay]
  | @start key _ _ _ _ _ hlane hdrainer =>
    have hmore k : s.underWay k
        ≤ (s.deliveries ++ [(key, DeliveryPhase.running)]).countP
          fun d => d.1 = k ∧ d.2 ≠ .ended := by
      simp [underWay]
    intro k l hl
    have := h k l
    constructor <;> grind [Awake, Pending, underWay]
  | @lower i key lane hi hlane =>
    -- the delivery that is not counted any more has still to notify the lane
    have hsame k := countP_set_add hi (key, .lowered) fun d => d.1 = k ∧ d.2 ≠ .ended
    have hpos : 0 < s.underWay key := countP_pos_iff.mpr ⟨_, mem_of_getElem? hi, by simp⟩
    intro k l hl
    have := h k l
    constructor <;> grind [Awake, Pending, underWay]
  | @free i key hi =>
    have hless k := countP_set_add hi (key, .ended) fun d => d.1 = k ∧ d.2 ≠ .ended
    intro k l hl
    constructor <;> grind [Awake, Pending, underWay]

instance : Decidable (s.Pending key lane) := inferInstanceAs (Decidable (_ ∨ _ ∨ _))

instance {nowMs : Int64} : Decidable (Lost env s nowMs key lane) :=
  inferInstanceAs (Decidable (_ ∧ _ ∧ _ ∧ _ ∧ _ ∧ _ ∧ ¬s.Pending key lane))

instance : Decidable (WokenByOwn env s a) :=
  inferInstanceAs (Decidable (∀ key ∈ a.drains, ∀ lane ∈ s.lanes key, _ → _ → s.Pending key lane))

/-- **No lost wake-up.** -/
theorem no_lost_wakeup {as : List FlowEvent} (hrun : Run (step env) (WokenByOwn env) new as s)
    {nowMs : Int64} (hlane : s.lanes key = some lane) : ¬Lost env s nowMs key lane := by
  have h := hrun.invariant (fun s => ∀ key lane, s.lanes key = some lane → s.Awake key lane)
    (fun _ _ _ h hgood hstep => awake_step h hgood hstep) (by simp [new]) key lane hlane
  rintro ⟨hwork, hopen, hslot, -, -, hparked, hpending⟩
  have := h.parked hparked
  grind

/-- A lane and a maximum of one: the drainer parks while its delivery runs. -/
theorem no_lost_wakeup_one_lane : ∃ s lane,
    Run (step ⟨some 1, 8192⟩) (WokenByOwn ⟨some 1, 8192⟩) new
      (waiting ⟨1, "a"⟩ ++ drains ⟨1, "a"⟩ 9 ++ drains ⟨1, "a"⟩ 4) s ∧
      s.lanes ⟨1, "a"⟩ = some lane ∧ lane.drainer = .parked ∧
      ¬Lost ⟨some 1, 8192⟩ s 0 ⟨1, "a"⟩ lane := by
  exact Exists.imp (fun s => Exists.imp fun lane => and_imp_of fun hs => and_imp_of fun hlane =>
    and_of fun _ => no_lost_wakeup hs hlane) (by decide +kernel)

/-- **A slot freed by another lane wakes nobody.** -/
theorem freed_slot_wakes_nobody : ∃ s lane,
    AnyRun (step ⟨some 1, 8192⟩) new
      (waiting ⟨1, "a"⟩ ++ drains ⟨1, "a"⟩ 9 ++ waiting ⟨2, "b"⟩ ++ drains ⟨2, "b"⟩ 11 ++
        [.delivery 0, .delivery 0, .notify 0]) s ∧
      s.lanes ⟨2, "b"⟩ = some lane ∧ Lost ⟨some 1, 8192⟩ s 0 ⟨2, "b"⟩ lane := by
  decide +kernel

end FlowController

/-! ## Limits -/

/-- The limits under the pins. -/
def PinnedLimits.over (pins : PinnedLimits) (base : Limits) : Limits where
  parallelism := (pins.parallelism.map (max · 1)).getD base.parallelism
  rate := pins.rate.getD base.rate
  periodSecs := (pins.periodSecs.map (max · 1)).getD base.periodSecs
  parallelism_pos := by
    cases pins.parallelism with
    | none => exact base.parallelism_pos
    | some p =>
      change 1 ≤ if p ≤ 1 then 1 else p
      grind
  period_pos := by
    cases pins.periodSecs with
    | none => exact base.period_pos
    | some p =>
      change 1 ≤ if p ≤ 1 then 1 else p
      grind

/-- The limits last submitted or ensured for a lane, and what is pinned: what the calls ask for. -/
def ask (key : FlowKey) (asked : Option (Limits × PinnedLimits)) :
    FlowEvent → Option (Limits × PinnedLimits)
  | .ensureLane k limits _ =>
    if k = key then some (limits, (asked.map Prod.snd).getD ⟨none, none, none⟩) else asked
  | .pin k pins =>
    if k = key then
      asked.map fun (base, old) =>
        (base, ⟨pins.parallelism <|> old.parallelism, pins.rate <|> old.rate,
          pins.periodSecs <|> old.periodSecs⟩)
    else asked
  | .unpin k parallelism rate =>
    if k = key then
      asked.map fun (base, old) =>
        (base, { old with
          parallelism := if parallelism then none else old.parallelism
          rate := if rate then none else old.rate })
    else asked
  | _ => asked

/-- The limits are those that the lane reports and that its drainer goes by. -/
def Lane.Enforces (lane : Lane) (limits : Limits) : Prop :=
  lane.terms = limits.terms

namespace FlowController

theorem terms_advance {full critical : Bool} (h : lane.advance full critical nowMs = some lane') :
    lane'.terms = lane.terms := by
  rw [Lane.advance] at h
  grind [RateWindow.tryAcquire]

/-- Only `get_or_create_lane` changes what a lane enforces. -/
theorem terms_step (hstep : s.step env a = some s') :
    (s'.lanes key).map Lane.terms
      = ((a.limitsFor key).map Limits.terms <|> (s.lanes key).map Lane.terms) := by
  cases move_of_step hstep with
  | @create k limits nowMs hnone =>
    by_cases hk : k = key
    · simp [hk, Lane.terms, Lane.new, FlowEvent.limitsFor, Limits.terms]
    · grind
  | @call a k lane lane' seq notices hlane hcall =>
    by_cases hk : key = k
    · have := hcall.terms
      cases h : a.limitsFor key <;> grind
    · grind [hcall.only key hk]
  | advance hlane hadvance =>
    have := terms_advance hadvance
    grind
  | _ => grind

/-- The lane enforces the limits last submitted or ensured. -/
def Follows (s : FlowController) (key : FlowKey) (asked : Option (Limits × PinnedLimits)) : Prop :=
  (s.lanes key).map Lane.terms = asked.map fun r => r.1.terms

theorem Follows.step {asked : Option (Limits × PinnedLimits)} (h : s.Follows key asked)
    (hstep : s.step env a = some s') : s'.Follows key (ask key asked a) := by
  rw [Follows, terms_step hstep, h]
  cases a <;> cases asked <;> grind [ask]

/-- **Effective limits**: a lane enforces the pinned values over those last submitted or ensured if
and only if the pins change nothing. -/
theorem limits_effective_iff {as : List FlowEvent}
    (hrun : AnyRun (step env) new as s) (hlane : s.lanes key = some lane) :
    ∃ base pins, as.foldl (ask key) none = some (base, pins) ∧
      (lane.Enforces (pins.over base) ↔ pins.over base = base) := by
  have hfollows : ∀ {s as s'} (asked), AnyRun (step env) s as s' →
      s.Follows key asked → s'.Follows key (as.foldl (ask key) asked) := by
    intro s as s' asked hrun
    induction hrun generalizing asked with
    | nil _ => exact id
    | cons _ hstep _ ih => exact fun h => ih _ (h.step hstep)
  have hmap := hfollows none hrun rfl
  rw [Follows, hlane] at hmap
  obtain ⟨⟨base, pins⟩, hasked, hbase⟩ := map_eq_some_iff.mp hmap.symm
  refine ⟨base, pins, hasked, fun h => ?_, fun h => ?_⟩
  · exact congrArg Prod.fst (h.symm.trans hbase.symm)
  · rw [h]
    exact hbase.symm

instance {limits : Limits} : Decidable (lane.Enforces limits) :=
  inferInstanceAs (Decidable (_ = limits.terms))

/-- A lane with a parallelism of four. -/
def four : Limits := ⟨4, 0, 1, by decide, by decide⟩

/-- A pause and an unpin change nothing. -/
theorem limits_enforced_after_pause : ∃ s lane,
    AnyRun (step ⟨none, 8192⟩) new
      [.ensureLane ⟨1, "a"⟩ four 0, .pause ⟨1, "a"⟩, .unpin ⟨1, "a"⟩ true true] s ∧
      s.lanes ⟨1, "a"⟩ = some lane ∧ lane.Enforces four := by
  refine exists₂_and₂_of (by decide +kernel) fun s lane hs hlane => ?_
  obtain ⟨base, pins, hasked, hiff⟩ := limits_effective_iff hs hlane
  cases hasked
  exact hiff.mpr rfl

/-- **A pin changes nothing**: the parallelism of a lane stays at four when it is pinned to one. -/
theorem pin_changes_nothing : ∃ s lane asked,
    AnyRun (step ⟨none, 8192⟩) new
      [.ensureLane ⟨1, "a"⟩ four 0, .pin ⟨1, "a"⟩ ⟨some 1, none, none⟩] s ∧
      s.lanes ⟨1, "a"⟩ = some lane ∧
      [FlowEvent.ensureLane ⟨1, "a"⟩ four 0, .pin ⟨1, "a"⟩ ⟨some 1, none, none⟩].foldl
        (ask ⟨1, "a"⟩) none = some asked ∧ ¬lane.Enforces (asked.2.over asked.1) := by
  decide +kernel

end FlowController

end BetterMQ
