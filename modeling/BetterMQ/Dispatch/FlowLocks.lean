import BetterMQ.Lib.Locks
import BetterMQ.Dispatch.Flow

/-!
# The mutexes of flow control (`broker-dispatch/src/flow_control.rs`)

Every call on the controller and every round of a drainer as the mutexes that it takes and gives
back, one at a step. Which lanes exist is the store; what the calls write besides does not matter to
the mutexes, and a round of a drainer may end after each of its sections.

* **`flow_never_deadlocks`** — without calls of `pin` there is one order for all mutexes;
* **`pin_waits_for_itself`** — `pin` holds the pins when it calls `apply_pins`, which takes them.
-/

namespace BetterMQ

inductive FlowLock where
  | lanes
  | limits (key : FlowKey)
  | rate (key : FlowKey)
  | pinned (key : FlowKey)
  | waitlist (key : FlowKey)
  | paused (key : FlowKey)
  | drainers
  deriving DecidableEq

namespace FlowLock

/-- The order of the mutexes. -/
def rank : FlowLock → Nat
  | .lanes => 0
  | .limits _ => 1
  | .rate _ => 2
  | .pinned _ => 3
  | .waitlist _ => 4
  | .paused _ => 5
  | .drainers => 6

def Before (m m' : FlowLock) : Prop := m.rank < m'.rank

instance : IsStrictOrder FlowLock Before where
  irrefl m := Nat.lt_irrefl m.rank
  trans _ _ _ := Nat.lt_trans

end FlowLock

/-- A program over the mutexes and the lanes that exist. -/
abbrev FlowProg := LockProg FlowLock (List FlowKey)

namespace FlowProg

open LockProg

section

variable (key : FlowKey)

def laneRef (found : FlowProg) : FlowProg :=
  .acquire .lanes (.access id fun keys => .release .lanes (if key ∈ keys then found else .done))

def getOrCreateLane (k : FlowProg) : FlowProg :=
  .acquire .lanes (.access id fun keys =>
    if key ∈ keys then locked (.limits key) (locked (.rate key) (.release .lanes k))
    -- `spawn_lane_drainer` files the handle of the task
    else locked .drainers (.access (· ++ [key]) fun _ => .release .lanes k))

/-- `info_from_lane`: the guards live until the answer is built. -/
def infoFromLane (k : FlowProg) : FlowProg :=
  .acquire (.limits key) (.acquire (.rate key) (.acquire (.pinned key) (.acquire (.waitlist key)
    (.acquire (.paused key) (.release (.paused key) (.release (.waitlist key)
      (.release (.pinned key) (.release (.rate key) (.release (.limits key) k)))))))))

def applyPins (pins : PinnedLimits) (k : FlowProg) : FlowProg :=
  let period := if pins.periodSecs.isSome then locked (.rate key) else id
  let rate := if pins.rate.isSome then locked (.rate key) else id
  .acquire (.pinned key) (.acquire (.limits key)
    (rate (period (.release (.limits key) (.release (.pinned key) k)))))

end

end FlowProg

inductive FlowCall where
  | submit (key : FlowKey)
  | get (key : FlowKey)
  | listKeys (endpointId : Uuid)
  | ensureLane (key : FlowKey)
  /-- `pause` and `resume`. -/
  | setPaused (key : FlowKey)
  | pin (key : FlowKey) (pins : PinnedLimits)
  | unpin (key : FlowKey)
  | resetRate (key : FlowKey)
  /-- A round of the drainer, up to its `n`-th critical section. -/
  | drain (key : FlowKey) (n : Nat)

variable {key : FlowKey} {k : FlowProg}

namespace FlowCall

open LockProg FlowProg

def prog : FlowCall → FlowProg
  | .submit key => getOrCreateLane key (locked (.waitlist key) .done)
  | .get key =>
    .acquire .lanes (.access id fun keys =>
      if key ∈ keys then infoFromLane key (.release .lanes .done) else .release .lanes .done)
  | .listKeys endpointId =>
    .acquire .lanes (.access id fun keys =>
      (keys.filter (·.endpointId = endpointId)).foldr infoFromLane (.release .lanes .done))
  | .ensureLane key => getOrCreateLane key .done
  | .setPaused key => laneRef key (locked (.paused key) .done)
  | .pin key pins =>
    laneRef key (.acquire (.pinned key) (applyPins key pins (.release (.pinned key) .done)))
  | .unpin key => laneRef key (locked (.pinned key) .done)
  | .resetRate key => laneRef key (locked (.rate key) .done)
  | .drain key n =>
    ([FlowLock.paused key, .limits key, .rate key, .waitlist key].take n).foldr locked .done

/-- The call does not pin. -/
def IsNotPin : FlowCall → Prop
  | .pin _ _ => False
  | _ => True

/-- Sections that are left again need no order among themselves. -/
theorem ordered_sections (ms : List FlowLock) :
    LockProg.Ordered FlowLock.Before [] (ms.foldr locked (.done : FlowProg)) := by
  induction ms with
  | nil => trivial
  | cons m ms ih => exact ⟨by simp, by simpa [LockProg.Ordered] using ih⟩

theorem ordered_info (h : k.Ordered FlowLock.Before [.lanes]) :
    (infoFromLane key k).Ordered FlowLock.Before [.lanes] := by
  simpa [infoFromLane, LockProg.Ordered, FlowLock.Before, FlowLock.rank] using h

theorem ordered_getOrCreateLane (h : k.Ordered FlowLock.Before []) :
    (getOrCreateLane key k).Ordered FlowLock.Before [] := by
  refine ⟨by simp, fun keys => ?_⟩
  dsimp only
  split <;> simpa [locked, LockProg.Ordered, FlowLock.Before, FlowLock.rank] using h

theorem ordered_laneRef {found : FlowProg} (h : found.Ordered FlowLock.Before []) :
    (laneRef key found).Ordered FlowLock.Before [] := by
  refine ⟨by simp, fun keys => ?_⟩
  simp only [LockProg.Ordered]
  split
  · simpa using h
  · trivial

theorem ordered_prog {c : FlowCall} (h : c.IsNotPin) : c.prog.Ordered FlowLock.Before [] := by
  cases c with
  | pin key pins => cases h
  | submit key => exact ordered_getOrCreateLane (ordered_sections [_])
  | ensureLane key => exact ordered_getOrCreateLane trivial
  | get key =>
    refine ⟨by simp, fun keys => ?_⟩
    dsimp only
    split
    · exact ordered_info (by simp [LockProg.Ordered])
    · simp [LockProg.Ordered]
  | listKeys endpointId =>
    refine ⟨by simp, fun keys => ?_⟩
    dsimp only
    induction keys.filter (·.endpointId = endpointId) with
    | nil => simp [LockProg.Ordered]
    | cons key keys ih => exact ordered_info ih
  | setPaused | unpin | resetRate => exact ordered_laneRef (ordered_sections [_])
  | drain key n => exact ordered_sections _

end FlowCall

/-- A call starts, or a task takes its next operation. -/
inductive FlowLockEvent where
  | start (c : FlowCall)
  | step (i : Nat)

namespace FlowLocks

def step (s : LockSystem FlowLock (List FlowKey)) :
    FlowLockEvent → Option (LockSystem FlowLock (List FlowKey))
  | .start c => some (s.start c.prog)
  | .step i => s.step i

/-- No call pins. -/
def NoPin (_ : LockSystem FlowLock (List FlowKey)) : FlowLockEvent → Prop
  | .start c => c.IsNotPin
  | .step _ => True

/-- **Flow control without pins never deadlocks.** -/
theorem flow_never_deadlocks {s : LockSystem FlowLock (List FlowKey)} {as : List FlowLockEvent}
    (hrun : Run step NoPin ⟨[], []⟩ as s) : ¬s.Deadlocked := by
  have h : s.Ordered FlowLock.Before :=
    hrun.invariant _ (fun s a s' h hgood hstep => by
      cases a with
      | start c =>
        cases hstep
        exact h.start (FlowCall.ordered_prog hgood)
      | step i => exact h.step hstep) (by simp [LockSystem.Ordered])
  exact h.not_deadlocked

instance {s : LockSystem FlowLock (List FlowKey)} (a : FlowLockEvent) : Decidable (NoPin s a) := by
  unfold NoPin FlowCall.IsNotPin
  repeat' split
  all_goals infer_instance

/-- A submit holds the lanes while a reader of the lane waits for them. -/
theorem submit_and_get_go_on : ∃ s,
    Run step NoPin ⟨[], []⟩ [.start (.submit ⟨1, "a"⟩), .step 0, .start (.get ⟨1, "a"⟩)] s ∧
      (s.tasks[1]?).bind LockTask.wants = some .lanes ∧ ¬s.Deadlocked := by
  exact exists_and₂_of (by decide +kernel) fun s hs _ => flow_never_deadlocks hs

/-- **`pin` waits for itself.** -/
theorem pin_waits_for_itself : ∃ s,
    AnyRun step ⟨[], []⟩ (.start (.ensureLane ⟨1, "a"⟩) :: List.replicate 6 (.step 0) ++
        .start (.pin ⟨1, "a"⟩ ⟨some 1, none, none⟩) :: List.replicate 4 (.step 1)) s ∧
      s.Deadlocked := by
  refine Exists.imp (fun s => and_imp_of fun _ (h : ∃ t, s.tasks[1]? = some t ∧
    t.wants = some (.pinned ⟨1, "a"⟩) ∧ .pinned ⟨1, "a"⟩ ∈ t.held) => ?_) (by decide +kernel)
  obtain ⟨t, ht, hwants, hheld⟩ := h
  exact ⟨1, .single ⟨t, t, _, ht, ht, hwants, hheld⟩⟩

end FlowLocks

end BetterMQ
