import BetterMQ.Dispatch.Engine

/-!
# Pausing

A queue and a group member are paused in the catalog, which `deliver_job` reads before it delivers a
message or puts it into its lane. A lane is paused in memory, which its drainer reads before it pops
a message. What is past the check goes on, and the fleet's claims (`claim_from_broker`) check
nothing.

* **`no_attempt_while_paused`** — when nothing is past the check at the time of a pause, and nothing
  paused is claimed, no attempt is started for anything paused;
* **`waiting_message_is_sent`** — a message in its lane is sent although its member is paused.
-/

namespace BetterMQ

open List Option

inductive Pausable where
  | lane (key : FlowKey)
  | queue (id : Uuid)
  | member (id : Uuid)
  deriving DecidableEq

inductive GatePhase where
  /-- In `deliver_job`, before the queue is read. -/
  | arrived
  | pastQueue
  | pastMember
  /-- In the waitlist of its lane. -/
  | waiting
  /-- In `deliver_message` or `push_http_only`, before the attempt. -/
  | pushing
  deriving DecidableEq

structure GateTask where
  msg : StoredMessage
  phase : GatePhase
  deriving DecidableEq

/-- The deliveries between their start and their attempt. -/
structure Gates where
  lanes : List FlowKey
  paused : List Pausable
  tasks : List GateTask
  /-- The lanes whose drainer has found them not paused and has not popped yet. -/
  popping : List FlowKey
  /-- The attempts, and whether something about the message was paused. -/
  started : List (StoredMessage × Bool)

inductive GateEvent where
  /-- A live job, a retry or a job of the backfill. -/
  | arrive (msg : StoredMessage)
  /-- A claim of the fleet. -/
  | claim (msg : StoredMessage)
  /-- The next check of `deliver_job`, and `submit` after the last. -/
  | advance (i : Nat)
  | drainCheck (key : FlowKey)
  /-- The drainer finds a limit reached or nothing waiting, and starts again. -/
  | drainBack (key : FlowKey)
  | drainPop (i : Nat)
  | attempt (i : Nat)
  /-- The delivery is deferred or given up before its attempt. -/
  | leave (i : Nat)
  /-- `ensure_lane`, before a lane is paused through the API. -/
  | ensureLane (key : FlowKey)
  | pause (p : Pausable)
  | resume (p : Pausable)

/-- The lane of a message that is flow controlled. -/
def laneOf (v5 : String → Uuid) (msg : StoredMessage) : Option FlowKey :=
  if deliveryUsesFlowControl msg then
    some ⟨flowLaneOwner v5 msg, (ResolvedFlow.forDelivery msg).key⟩
  else none

/-- The message is of this lane, queue or member. -/
def Pausable.Concerns (v5 : String → Uuid) (msg : StoredMessage) : Pausable → Prop
  | .lane key => laneOf v5 msg = some key
  | .queue id => msg.queueId = some id
  | .member id => msg.groupMemberId = some id

instance (v5 : String → Uuid) (msg : StoredMessage) : DecidablePred (Pausable.Concerns v5 msg) :=
  fun p => by cases p <;> exact inferInstanceAs (Decidable (_ = _))

/-- A delivery in this phase does not look at `p` any more. -/
def Pausable.Past (phase : GatePhase) : Pausable → Prop
  | .lane _ => phase = .pushing
  | .queue _ => phase ≠ .arrived
  | .member _ => phase ≠ .arrived ∧ phase ≠ .pastQueue

instance (phase : GatePhase) : DecidablePred (Pausable.Past phase) :=
  fun p => by cases p <;> unfold Pausable.Past <;> infer_instance

namespace Gates

def start : Gates := ⟨[], [], [], [], []⟩

/-- Something about the message is paused. -/
def isPaused (v5 : String → Uuid) (s : Gates) (msg : StoredMessage) : Bool :=
  s.paused.any fun p => p.Concerns v5 msg

def setPhase (s : Gates) (i : Nat) (t : GateTask) (phase : GatePhase) : Gates :=
  { s with tasks := s.tasks.set i { t with phase } }

section

variable (v5 : String → Uuid) (s : Gates)

/-- `deliver_job` from one check to the next; a paused job is deferred, which begins again. -/
def advance (i : Nat) (t : GateTask) : Option Gates :=
  match t.phase with
  | .arrived =>
    if t.msg.queueId.any fun id => .queue id ∈ s.paused then some s
    else some (s.setPhase i t .pastQueue)
  | .pastQueue =>
    if t.msg.groupMemberId.any fun id => .member id ∈ s.paused then
      some (s.setPhase i t .arrived)
    else some (s.setPhase i t .pastMember)
  | .pastMember =>
    match laneOf v5 t.msg with
    | none => some (s.setPhase i t .pushing)
    | some key => some { s.setPhase i t .waiting with lanes := key :: s.lanes }
  | _ => none

def step : GateEvent → Option Gates
  | .arrive msg => some { s with tasks := ⟨msg, .arrived⟩ :: s.tasks }
  | .claim msg => some { s with tasks := ⟨msg, .pushing⟩ :: s.tasks }
  | .advance i => s.tasks[i]?.bind fun t => s.advance v5 i t
  | .drainCheck key =>
    if key ∈ s.lanes ∧ .lane key ∉ s.paused then some { s with popping := key :: s.popping }
    else none
  | .drainBack key => some { s with popping := s.popping.filter (· ≠ key) }
  | .drainPop i => s.tasks[i]?.bind fun t => (laneOf v5 t.msg).bind fun key =>
    if t.phase = .waiting ∧ key ∈ s.popping then
      some { s.setPhase i t .pushing with popping := s.popping.filter (· ≠ key) }
    else none
  | .attempt i => s.tasks[i]?.bind fun t =>
    if t.phase = .pushing then
      some { s with
        tasks := s.tasks.eraseIdx i
        started := (t.msg, s.isPaused v5 t.msg) :: s.started }
    else none
  | .leave i => some { s with tasks := s.tasks.eraseIdx i }
  | .ensureLane key => some { s with lanes := key :: s.lanes }
  -- a lane that does not exist is not paused: the call returns `false`
  | .pause (.lane key) =>
    if key ∈ s.lanes then some { s with paused := .lane key :: s.paused } else some s
  | .pause p => some { s with paused := p :: s.paused }
  | .resume p => some { s with paused := s.paused.filter (· ≠ p) }

/-- At a pause nothing it concerns is past the check, and what is claimed is not paused. -/
def Clear : GateEvent → Prop
  | .pause p => (∀ t ∈ s.tasks, p.Concerns v5 t.msg → ¬p.Past t.phase) ∧
    ∀ key ∈ s.popping, p ≠ .lane key
  | .claim msg => ∀ p ∈ s.paused, ¬p.Concerns v5 msg
  | _ => True

end

/-- Nothing paused is past its check. -/
structure Held (v5 : String → Uuid) (s : Gates) : Prop where
  tasks : ∀ p ∈ s.paused, ∀ t ∈ s.tasks, p.Concerns v5 t.msg → ¬p.Past t.phase
  popping : ∀ key ∈ s.popping, .lane key ∉ s.paused
  started : ∀ a ∈ s.started, a.2 = false

variable {v5 : String → Uuid} {s s' : Gates} {t : GateTask} {i : Nat}

section

variable (h : s.Held v5)

include h

theorem Held.setPhase {phase : GatePhase}
    (hphase : ∀ p ∈ s.paused, p.Concerns v5 t.msg → ¬p.Past phase) :
    (s.setPhase i t phase).Held v5 := by
  refine ⟨fun p hp u hu => ?_, h.popping, h.started⟩
  rcases mem_or_eq_of_mem_set hu with hold | rfl
  · exact h.tasks p hp u hold
  · exact hphase p hp

theorem Held.advance (ht : t ∈ s.tasks) (hstep : s.advance v5 i t = some s') : s'.Held v5 := by
  have hbefore := fun p hp => h.tasks p hp t ht
  unfold Gates.advance at hstep
  split at hstep
  · next hphase =>
    split at hstep <;> cases hstep
    · exact h
    · exact h.setPhase fun p hp hmsg => by cases p <;> grind [Pausable.Concerns, Pausable.Past]
  · next hphase =>
    split at hstep <;> cases hstep
    · exact h.setPhase fun p hp hmsg => by cases p <;> grind [Pausable.Past]
    · exact h.setPhase fun p hp hmsg => by cases p <;> grind [Pausable.Concerns, Pausable.Past]
  · next hphase =>
    split at hstep <;> cases hstep
    · exact h.setPhase fun p hp hmsg => by cases p <;> grind [Pausable.Concerns, Pausable.Past]
    · have hwaiting : (s.setPhase i t .waiting).Held v5 :=
        h.setPhase fun p hp hmsg => by cases p <;> grind [Pausable.Past]
      exact ⟨hwaiting.tasks, hwaiting.popping, hwaiting.started⟩
  · cases hstep

theorem Held.drainPop (ht : t ∈ s.tasks) {key : FlowKey} (hkey : laneOf v5 t.msg = some key)
    (hphase : t.phase = .waiting) (hpop : key ∈ s.popping) : (s.setPhase i t .pushing).Held v5 := by
  have hbefore := fun p hp => h.tasks p hp t ht
  have hopen := h.popping key hpop
  exact h.setPhase fun p hp hmsg => by cases p <;> grind [Pausable.Concerns, Pausable.Past]

theorem Held.isPaused_eq_false (ht : t ∈ s.tasks) (hphase : t.phase = .pushing) :
    s.isPaused v5 t.msg = false := by
  rw [isPaused, List.any_eq_false]
  intro p hp hmsg
  refine h.tasks p hp t ht (of_decide_eq_true hmsg) ?_
  cases p <;> simp [Pausable.Past, hphase]

theorem Held.step {e : GateEvent} (hgood : s.Clear v5 e)
    (hstep : s.step v5 e = some s') : s'.Held v5 := by
  obtain ⟨htasks, hpopping, hstarted⟩ := id h
  cases e with
  | arrive msg =>
    cases hstep
    refine ⟨fun p hp => forall_mem_cons.mpr ⟨?_, htasks p hp⟩, hpopping, hstarted⟩
    cases p <;> simp [Pausable.Past]
  | claim msg =>
    cases hstep
    refine ⟨fun p hp => forall_mem_cons.mpr ⟨?_, htasks p hp⟩, hpopping, hstarted⟩
    exact fun hmsg => absurd hmsg (hgood p hp)
  | advance i =>
    obtain ⟨t, ht, hstep⟩ := bind_eq_some_iff.mp hstep
    exact h.advance (mem_of_getElem? ht) hstep
  | drainCheck key =>
    obtain ⟨hopen, hsome⟩ := ite_none_right_eq_some.mp hstep
    cases hsome
    exact ⟨htasks, forall_mem_cons.mpr ⟨hopen.2, hpopping⟩, hstarted⟩
  | drainBack key =>
    cases hstep
    exact ⟨htasks, fun k hk => hpopping k (mem_of_mem_filter hk), hstarted⟩
  | drainPop i =>
    obtain ⟨t, ht, hstep⟩ := bind_eq_some_iff.mp hstep
    obtain ⟨key, hkey, hstep⟩ := bind_eq_some_iff.mp hstep
    obtain ⟨⟨hphase, hpop⟩, hsome⟩ := ite_none_right_eq_some.mp hstep
    cases hsome
    have hnew := h.drainPop (i := i) (mem_of_getElem? ht) hkey hphase hpop
    exact ⟨hnew.tasks, fun k hk => hpopping k (mem_of_mem_filter hk), hstarted⟩
  | attempt i =>
    obtain ⟨t, ht, hstep⟩ := bind_eq_some_iff.mp hstep
    obtain ⟨hphase, hsome⟩ := ite_none_right_eq_some.mp hstep
    cases hsome
    exact ⟨fun p hp u hu => htasks p hp u (mem_of_mem_eraseIdx hu), hpopping, forall_mem_cons.mpr
        ⟨h.isPaused_eq_false (mem_of_getElem? ht) hphase, hstarted⟩⟩
  | leave i =>
    cases hstep
    exact ⟨fun p hp u hu => htasks p hp u (mem_of_mem_eraseIdx hu), hpopping, hstarted⟩
  | ensureLane key =>
    cases hstep
    exact ⟨htasks, hpopping, hstarted⟩
  | pause p =>
    have hnew : { s with paused := p :: s.paused }.Held v5 := by
      refine ⟨forall_mem_cons.mpr ⟨hgood.1, htasks⟩, fun key hkey hp => ?_, hstarted⟩
      rcases mem_cons.mp hp with rfl | hold
      · exact hgood.2 key hkey rfl
      · exact hpopping key hkey hold
    cases p with
    | lane key =>
      simp only [Gates.step] at hstep
      split at hstep <;> cases hstep
      · exact hnew
      · exact h
    | queue | member =>
      cases hstep
      exact hnew
  | resume p =>
    cases hstep
    exact ⟨fun q hq => htasks q (mem_of_mem_filter hq),
      fun key hkey hp => hpopping key hkey (mem_of_mem_filter hp), hstarted⟩

end

/-- **No attempt for anything paused is started**, in every run in which nothing is past the check
at the time of a pause, and the fleet claims nothing that is paused. -/
theorem no_attempt_while_paused {events : List GateEvent}
    (hrun : Run (step v5) (Clear v5) start events s) : ∀ a ∈ s.started, a.2 = false := by
  have hstart : start.Held v5 := by constructor <;> simp [start]
  exact (Run.invariant (Held v5) (fun _ _ _ h hgood hstep => h.step hgood hstep) hrun
    hstart).started

instance (v5 : String → Uuid) (s : Gates) (e : GateEvent) : Decidable (s.Clear v5 e) := by
  cases e <;> unfold Clear <;> infer_instance

/-- The events that bring a message into its lane, and those that pop and send it. -/
def toLane (msg : StoredMessage) : List GateEvent :=
  [.arrive msg, .advance 0, .advance 0, .advance 0]

def fromLane (key : FlowKey) : List GateEvent := [.drainCheck key, .drainPop 0, .attempt 0]

/-- A lane is paused before its first message, which is sent after `resume`. -/
theorem waiting_message_is_held : ∃ s, Run (step fun _ => 0) (Clear fun _ => 0) start
    ([.ensureLane ⟨7, "k"⟩, .pause (.lane ⟨7, "k"⟩)] ++ toLane (hookMessage 1) ++
      .resume (.lane ⟨7, "k"⟩) :: fromLane ⟨7, "k"⟩) s ∧
    s.started ≠ [] ∧ ∀ a ∈ s.started, a.2 = false := by
  exact exists_and₂_of (by decide +kernel) fun s hrun _ => no_attempt_while_paused hrun

/-- The member is paused while the message waits in its lane, which is not. -/
theorem waiting_message_is_sent :
    let msg := { hookMessage 1 with groupMemberId := some 8 }
    ∃ s, AnyRun (step fun _ => 0) start
      (toLane msg ++ [.pause (.member 8)] ++ fromLane ⟨8, "k"⟩) s ∧ s.started = [(msg, true)] := by
  decide +kernel

end Gates

end BetterMQ
